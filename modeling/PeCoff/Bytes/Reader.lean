import PeCoff.Bytes.LittleEndian
import PeCoff.Error

/-!
# Reading at a position

A reader looks at the bytes from a position and either gives a value with the
position behind what it consumed, or fails. The position may lie anywhere, past
the end too: only a read of at least one byte there fails. Every byte is
obtained through `exact` or `upTo`, so bounds are checked in two places.
-/

namespace PeCoff

structure Reader (α : Type) where
  run : ByteArray → Nat → Except ReadError (α × Nat)

namespace Reader

@[always_inline, inline]
protected def pure (value : α) : Reader α :=
  ⟨fun _ position => .ok (value, position)⟩

@[always_inline, inline]
protected def bind (first : Reader α) (next : α → Reader β) : Reader β :=
  ⟨fun bytes position =>
    match first.run bytes position with
    | .error cause => .error cause
    | .ok (value, after) => (next value).run bytes after⟩

@[always_inline]
instance : Monad Reader where
  pure := Reader.pure
  bind := Reader.bind

@[simp] theorem run_pure (value : α) (bytes : ByteArray) (position : Nat) :
    (pure value : Reader α).run bytes position = .ok (value, position) := rfl

theorem run_bind (first : Reader α) (next : α → Reader β) (bytes : ByteArray) (position : Nat) :
    (first >>= next).run bytes position =
      match first.run bytes position with
      | .error cause => .error cause
      | .ok (value, after) => (next value).run bytes after := rfl

instance : LawfulMonad Reader :=
  LawfulMonad.mk' Reader
    (fun reader => by
      refine congrArg Reader.mk (funext fun bytes => funext fun position => ?_)
      show (match reader.run bytes position with
        | .error cause => Except.error cause
        | .ok (value, after) => Except.ok (value, after)) = reader.run bytes position
      cases reader.run bytes position <;> rfl)
    (fun _ _ => rfl)
    (fun reader first second => by
      refine congrArg Reader.mk (funext fun bytes => funext fun position => ?_)
      show (match (match reader.run bytes position with
          | .error cause => Except.error cause
          | .ok (value, after) => (first value).run bytes after) with
        | .error cause => Except.error cause
        | .ok (value, after) => (second value).run bytes after) = _
      simp only [run_bind]
      cases reader.run bytes position <;> rfl)

def value (reader : Reader α) (bytes : ByteArray) (position : Nat) : Except ReadError α :=
  (reader.run bytes position).map Prod.fst

def fail (cause : FormatError) : Reader α :=
  ⟨fun _ _ => .error (.format cause)⟩

def require (rule : Prop) [Decidable rule] (cause : FormatError) : Reader Unit :=
  if rule then pure () else fail cause

def lift : Except FormatError α → Reader α
  | .ok value => pure value
  | .error cause => fail cause

def seek (position : Nat) : Reader Unit :=
  ⟨fun _ _ => .ok ((), position)⟩

/-- A reader whose failure is an answer. The position stays put on failure. -/
def attempt (reader : Reader α) : Reader (Option α) :=
  ⟨fun bytes position =>
    match reader.run bytes position with
    | .ok (value, after) => .ok (some value, after)
    | .error _ => .ok (none, position)⟩

/-- Exactly `count` bytes, which must all be there before one is taken. -/
def exact (count : Nat) : Reader (Vector UInt8 count) :=
  ⟨fun bytes position =>
    if h : count = 0 ∨ position + count ≤ bytes.size then
      .ok (⟨(bytes.extract position (position + count)).data, by
        rw [ByteArray.size_data, ByteArray.size_extract]; omega⟩, position + count)
    else
      .error (.truncated position count)⟩

def upTo (count : Nat) : Reader ByteArray :=
  ⟨fun bytes position =>
    let available := min count (bytes.size - position)
    .ok (bytes.extract position (position + available), position + available)⟩

/-- `count` bytes, taken as far as they go and then counted. A count far beyond
the data costs nothing. -/
def bytes (count : Nat) : Reader ByteArray :=
  ⟨fun bytes position =>
    match (upTo count).run bytes position with
    | .error cause => .error cause
    | .ok (taken, after) =>
      if taken.size < count then .error (.truncated position count) else .ok (taken, after)⟩

def number (width : Nat) : Reader Nat := do
  let data ← exact width
  pure (LittleEndian.value data.toList)

def u8 : Reader UInt8 := do pure (.ofNat (← number 1))
def u16 : Reader UInt16 := do pure (.ofNat (← number 2))
def u32 : Reader UInt32 := do pure (.ofNat (← number 4))
def u64 : Reader UInt64 := do pure (.ofNat (← number 8))
def i16 : Reader Int16 := do pure (← u16).toInt16
def i32 : Reader Int32 := do pure (← u32).toInt32

def fold (step : σ → α → Reader σ) (state : σ) (items : List α) : Reader σ :=
  ⟨fun bytes position => go bytes state items position⟩
where
  go (bytes : ByteArray) : σ → List α → Nat → Except ReadError (σ × Nat)
    | state, [], position => .ok (state, position)
    | state, item :: rest, position =>
      match (step state item).run bytes position with
      | .error cause => .error cause
      | .ok (state, after) => go bytes state rest after

def times (count : Nat) (reader : Reader α) : Reader (List α) :=
  ⟨fun bytes position => go bytes count [] position⟩
where
  go (bytes : ByteArray) : Nat → List α → Nat → Except ReadError (List α × Nat)
    | 0, done, position => .ok (done.reverse, position)
    | count + 1, done, position =>
      match reader.run bytes position with
      | .error cause => .error cause
      | .ok (value, after) => go bytes count (value :: done) after

/-- The values of steps 0, 1, 2 and so on, up to the first that gives none, and
of at most `limit` steps. -/
def collect (limit : Nat) (step : Nat → Reader (Option α)) : Reader (List α) :=
  ⟨fun bytes position => go bytes limit 0 [] position⟩
where
  go (bytes : ByteArray) : Nat → Nat → List α → Nat → Except ReadError (List α × Nat)
    | 0, _, done, position => .ok (done.reverse, position)
    | left + 1, index, done, position =>
      match (step index).run bytes position with
      | .error cause => .error cause
      | .ok (none, after) => .ok (done.reverse, after)
      | .ok (some value, after) => go bytes left (index + 1) (value :: done) after

def mapEach (read : α → Reader β) (items : List α) : Reader (List β) := do
  let done ← fold (fun done item => do pure ((← read item) :: done)) [] items
  pure done.reverse

def filterMap (read : α → Reader (Option β)) (items : List α) : Reader (List β) := do
  let done ← fold (fun done item => do
    match ← read item with
    | some value => pure (value :: done)
    | none => pure done) [] items
  pure done.reverse

end Reader

end PeCoff
