import PeCoff.Proofs.Outline.Directories
import PeCoff.Proofs.Outline.Resource
import PeCoff.Report

/-!
# JSON reports lose nothing

An image is its JSON report, read back: what is printed tells apart any two
images, whatever their codes, flags and texts hold, and so does the whole program.
-/

namespace PeCoff

open Outline

@[simp] theorem Image.faithful : Faithful outline := .record fun a b h => by
  cases a; cases b
  simpa using h

namespace Report

theorem json_inj {image other : Image} (h : json image = json other) : image = other := by
  have hl := congrArg String.toList h
  rw [json, json, String.toList_append, String.toList_append] at hl
  exact Image.faithful.inj (Json.pretty_inj (String.toList_inj.mp (List.append_cancel_right hl)))

theorem run_json_eq_printed {bytes : ByteArray} {loaded : Bool} {text : String} :
    run .json bytes loaded = .printed text ↔
      ∃ image, Image.read bytes loaded = .ok image ∧ json image = text := by
  unfold run
  simp only [Mode.prepare]
  cases Image.read bytes loaded <;> simp

/-- Two requests for JSON print the same text exactly if they read the same image,
whatever the bytes are and however they are laid out. -/
theorem json_lossless (bytes bytes' : ByteArray) (loaded loaded' : Bool) :
    (∃ text, run .json bytes loaded = .printed text ∧
      run .json bytes' loaded' = .printed text) ↔
    ∃ image, Image.read bytes loaded = .ok image ∧ Image.read bytes' loaded' = .ok image := by
  simp only [run_json_eq_printed]
  constructor
  · rintro ⟨text, ⟨image, hi, rfl⟩, other, ho, ht⟩
    cases json_inj ht
    exact ⟨image, hi, ho⟩
  · rintro ⟨image, hi, ho⟩
    exact ⟨json image, ⟨image, hi, rfl⟩, image, ho, rfl⟩

end Report

end PeCoff
