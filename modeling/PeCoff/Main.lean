import PeCoff.Report

/-!
# Command line

`MODE [--loaded] [--] FILE [RVA]` prints one report of a file.
-/

namespace PeCoff.CommandLine

open Report (Mode)

structure Request where
  mode : Mode
  file : String
  loaded : Bool

/-- The arguments that are no options, and whether the loaded layout is asked
for, which may be said once. A lone dash is no option, and behind `--` nothing
is. -/
def operands : List String → Option (List String × Bool)
  | [] => some ([], false)
  | "--" :: rest => some (rest, false)
  | "--loaded" :: rest =>
    match operands rest with
    | some (plain, false) => some (plain, true)
    | _ => none
  | argument :: rest =>
    if argument.startsWith "-" && argument != "-" then none
    else (operands rest).map fun (plain, loaded) => (argument :: plain, loaded)

def plainMode? : String → Option Mode
  | "headers" => some .headers
  | "sections" => some .sections
  | "exports" => some .exports
  | "imports" => some .imports
  | "debug" => some .debug
  | "resources" => some .resources
  | "version" => some .version
  | "clr" => some .managed
  | "json" => some .json
  | _ => none

def request? : List String → Option Request
  | "rva" :: rest =>
    match operands rest with
    | some ([file, rva], loaded) => some { mode := .location rva, file, loaded }
    | _ => none
  | word :: rest =>
    match plainMode? word, operands rest with
    | some mode, some ([file], loaded) => some { mode, file, loaded }
    | _, _ => none
  | [] => none

end PeCoff.CommandLine

open PeCoff

def main (arguments : List String) : IO UInt32 := do
  match CommandLine.request? arguments with
  | none =>
    IO.eprintln "usage: MODE [--loaded] [--] FILE [RVA]"
    return 2
  | some request =>
    match request.mode.prepare with
    | .error cause =>
      IO.eprintln cause.message
      return 2
    | .ok _ =>
      let bytes? ← (some <$> IO.FS.readBinFile request.file) <|> pure none
      match bytes? with
      | none =>
        IO.eprintln "failed to read the file"
        return 101
      | some bytes =>
        let outcome := Report.run request.mode bytes request.loaded
        IO.print outcome.output
        match outcome with
        | .unreadable cause => IO.eprintln cause.message
        | _ => pure ()
        return outcome.exitCode
