import PeCoff.Proofs.Bytes.Access

/-!
# Evaluation with faults

Results can be too large for their width, differences can be negative, an index
can lead nowhere and a position too far. An evaluation that meets this stops with
a fault, which unlike a failure to read cannot be caught. Unbounded arithmetic
takes results as large as they are; a negative one is a fault all the same, as no
number here has a sign.

`Safe` relates an evaluation to a reader: it meets no fault in either arithmetic
and ends as the reader does.
-/

namespace PeCoff

/-- Whether a result has to fit its width. -/
inductive Arithmetic where
  | checked
  | unbounded
  deriving DecidableEq

inductive Fault where
  | negative (exact : Int)
  | overflow (width : Nat) (exact : Int)
  | index (index length : Nat)
  | position (position : Nat)
  deriving DecidableEq

inductive Stop where
  | fault (fault : Fault)
  | cause (cause : ReadError)
  deriving DecidableEq

/-- A reader whose arithmetic can be at fault. -/
abbrev Evaluation := ReaderT Arithmetic (ReaderT ByteArray (StateT Nat (Except Stop)))

-- ---------------------------------------------------------------------------
-- What readers yield
-- ---------------------------------------------------------------------------

namespace Reader

def Yields (reader : Reader α) (value : α) : Prop :=
  ∃ bytes position after, reader.run bytes position = .ok (value, after)

theorem Yields.of_require {rule : Prop} [Decidable rule] {cause : FormatError}
    {answer : Unit} (h : (require rule cause).Yields answer) : rule := by
  obtain ⟨bytes, position, after, hr⟩ := h
  exact (run_require_ok.mp hr).1

theorem Yields.length_times {reader : Reader α} {count : Nat} {values : List α}
    (h : (times count reader).Yields values) : values.length = count := by
  obtain ⟨bytes, position, after, hr⟩ := h
  induction count generalizing values position after with
  | zero =>
    rw [times_zero, run_pure_ok] at hr
    exact congrArg List.length hr.1
  | succ count ih =>
    rw [times_succ, run_bind_ok] at hr
    obtain ⟨first, middle, -, hr⟩ := hr
    obtain ⟨rest, last, ht, hp⟩ := run_bind_ok.mp hr
    obtain ⟨rfl, -⟩ := run_pure_ok.mp hp
    exact congrArg Nat.succ (ih middle last ht)

theorem Yields.of_attempt {reader : Reader α} {value : α}
    (h : (attempt reader).Yields (some value)) : reader.Yields value := by
  obtain ⟨bytes, position, after, hr⟩ := h
  simp only [attempt] at hr
  split at hr
  next found later hf =>
    cases hr
    exact ⟨bytes, position, after, hf⟩
  next => cases hr

end Reader

-- ---------------------------------------------------------------------------
-- Operations
-- ---------------------------------------------------------------------------

namespace Evaluation

def positionLimit : Nat := 1 <<< 34

def lift (reader : Reader α) : Evaluation α :=
  fun _ bytes position => (reader.run bytes position).mapError .cause

def fault (fault : Fault) : Evaluation α :=
  fun _ _ _ => .error (.fault fault)

/-- The exact result of an operation on numbers of that many bits. -/
def fit (width : Nat) (exact : Int) : Evaluation Nat :=
  fun arithmetic _ position =>
    if exact < 0 then .error (.fault (.negative exact))
    else if arithmetic = .checked ∧ 1 <<< width ≤ exact.toNat then
      .error (.fault (.overflow width exact))
    else .ok (exact.toNat, position)

def element (items : List α) (index : Nat) : Evaluation α :=
  match items[index]? with
  | some item => pure item
  | none => fault (.index index items.length)

/-- The elements from `start` on up to `stop`, which have to be there and to be
as many as asked for. -/
def part (count : Nat) (items : Vector α size) (start stop : Nat) : Evaluation (Vector α count) :=
  if h : start ≤ stop ∧ stop ≤ size ∧ stop - start = count then
    pure ((items.extract start stop).cast (by omega))
  else fault (.index stop size)

def seek (position : Nat) : Evaluation Unit :=
  fun arithmetic _ _ =>
    if arithmetic = .checked ∧ positionLimit ≤ position then .error (.fault (.position position))
    else .ok ((), position)

/-- Catches a failure to read but no fault. -/
def attempt (evaluation : Evaluation α) : Evaluation (Option α) :=
  fun arithmetic bytes position =>
    match evaluation arithmetic bytes position with
    | .ok (value, after) => .ok (some value, after)
    | .error (.cause _) => .ok (none, position)
    | .error (.fault fault) => .error (.fault fault)

def collect (limit : Nat) (step : Nat → Evaluation (Option α)) : Evaluation (List α) :=
  match limit with
  | 0 => pure []
  | limit + 1 => do
    match ← step 0 with
    | none => pure []
    | some value => do
      let values ← collect limit fun index => step (index + 1)
      pure (value :: values)

-- ---------------------------------------------------------------------------
-- Steps without a fault
-- ---------------------------------------------------------------------------

theorem fit_eq {width value : Nat} {exact : Int} (he : exact = value) (hw : value < 1 <<< width) :
    fit width exact = pure value := by
  subst he
  funext arithmetic bytes position
  unfold fit
  rw [if_neg (by omega), if_neg (fun h => absurd h.2 (Nat.not_le.mpr hw))]
  rfl

theorem step {first : Evaluation α} {value : α} {next : α → Evaluation β} {whole : Evaluation β}
    (hf : first = pure value) (hn : next value = whole) : first >>= next = whole := by
  rw [hf, pure_bind, hn]

theorem element_eq {items : List α} {index : Nat} {item : α} (h : items[index]? = some item) :
    element items index = pure item := by
  rw [element, h]

-- ---------------------------------------------------------------------------
-- Steps with a fault
-- ---------------------------------------------------------------------------

section

variable {bytes : ByteArray} {position : Nat}

theorem fit_negative {width : Nat} {exact : Int} (h : exact < 0) :
    fit width exact = fault (.negative exact) := by
  funext arithmetic bytes position
  unfold fit
  rw [if_pos h]
  rfl

theorem fit_overflow {width value : Nat} (h : 1 <<< width ≤ value) :
    fit width value .checked bytes position = .error (.fault (.overflow width value)) := by
  unfold fit
  rw [if_neg (Int.not_lt.mpr (Int.natCast_nonneg value)), if_pos ⟨rfl, h⟩]

theorem element_beyond {items : List α} {index : Nat} (h : items.length ≤ index) :
    element items index = fault (.index index items.length) := by
  rw [element, List.getElem?_eq_none h]

theorem seek_beyond {target : Nat} (h : positionLimit ≤ target) :
    seek target .checked bytes position = .error (.fault (.position target)) :=
  if_pos ⟨rfl, h⟩

theorem bind_stop {first : Evaluation α} {arithmetic : Arithmetic} {stop : Stop}
    (h : first arithmetic bytes position = .error stop) (next : α → Evaluation β) :
    (first >>= next) arithmetic bytes position = .error stop := by
  show (first arithmetic bytes position >>= fun result =>
    next result.1 arithmetic bytes result.2) = _
  rw [h]
  rfl

end

-- ---------------------------------------------------------------------------
-- Safe evaluations
-- ---------------------------------------------------------------------------

/-- There is no fault, and what is read is what the reader reads. -/
def Safe (evaluation : Evaluation α) (reader : Reader α) : Prop :=
  evaluation = lift reader

namespace Safe

theorem lift (reader : Reader α) : Safe (Evaluation.lift reader) reader := rfl

theorem pure (value : α) : Safe (Pure.pure value) (Pure.pure value) := rfl

theorem seek {position : Nat} (h : position < positionLimit) :
    Safe (Evaluation.seek position) (Reader.seek position) := by
  funext arithmetic bytes start
  unfold Evaluation.seek
  rw [if_neg (fun hs => absurd hs.2 (Nat.not_le.mpr h))]
  rfl

theorem bind {first : Evaluation α} {reader : Reader α} {next : α → Evaluation β}
    {next' : α → Reader β} (hf : Safe first reader)
    (hn : ∀ value, reader.Yields value → Safe (next value) (next' value)) :
    Safe (first >>= next) (reader >>= next') := by
  subst hf
  funext arithmetic bytes position
  show ((reader.run bytes position).mapError Stop.cause >>= fun result =>
    next result.1 arithmetic bytes result.2) = _
  simp only [Evaluation.lift, Reader.run_bind]
  cases hr : reader.run bytes position with
  | error cause => rfl
  | ok result =>
    obtain ⟨value, after⟩ := result
    exact congrFun (congrFun (congrFun (hn value ⟨bytes, position, after, hr⟩) arithmetic) bytes)
      after

theorem step {first : Evaluation α} {value : α} {next : α → Evaluation β} {reader : Reader β}
    (hf : first = Pure.pure value) (hn : Safe (next value) reader) :
    Safe (first >>= next) reader :=
  Evaluation.step hf hn

theorem attempt {evaluation : Evaluation α} {reader : Reader α} (h : Safe evaluation reader) :
    Safe (Evaluation.attempt evaluation) (Reader.attempt reader) := by
  subst h
  funext arithmetic bytes position
  simp only [Evaluation.attempt, Evaluation.lift, Reader.attempt]
  cases reader.run bytes position <;> rfl

-- ---------------------------------------------------------------------------
-- Safe loops
-- ---------------------------------------------------------------------------

/-- A loop is safe if each step is safe from a state that the steps before it lead to. -/
theorem foldlM (Inv : σ → Prop) {step : σ → α → Evaluation σ} {step' : σ → α → Reader σ}
    (hs : ∀ state item, Inv state → Safe (step state item) (step' state item))
    (hi : ∀ state item later, Inv state → (step' state item).Yields later → Inv later)
    {state : σ} (h : Inv state) (items : List α) :
    Safe (items.foldlM step state) (Reader.fold step' state items) := by
  induction items generalizing state with
  | nil => rfl
  | cons item rest ih =>
    rw [List.foldlM_cons, Reader.fold_cons]
    exact .bind (hs state item h) fun later hl => ih (hi state item later h hl)

theorem mapM {read : α → Evaluation β} {read' : α → Reader β} (items : List α)
    (h : ∀ item ∈ items, Safe (read item) (read' item)) :
    Safe (items.mapM read) (Reader.mapEach read' items) := by
  induction items with
  | nil => rfl
  | cons item rest ih =>
    obtain ⟨hi, hr⟩ := List.forall_mem_cons.mp h
    rw [List.mapM_cons, Reader.mapEach_cons]
    exact .bind hi fun value _ => .bind (ih hr) fun values _ => .pure _

theorem filterMapM {read : α → Evaluation (Option β)} {read' : α → Reader (Option β)}
    (items : List α) (h : ∀ item ∈ items, Safe (read item) (read' item)) :
    Safe (items.filterMapM read) (Reader.filterMap read' items) := by
  induction items with
  | nil => rfl
  | cons item rest ih =>
    obtain ⟨hi, hr⟩ := List.forall_mem_cons.mp h
    rw [List.filterMapM_cons, Reader.filterMap_cons]
    refine .bind hi fun found _ => ?_
    cases found with
    | none =>
      simp only [Option.toList_none, List.nil_append, bind_pure]
      exact ih hr
    | some value => exact .bind (ih hr) fun values _ => .pure _

theorem collect {limit : Nat} {step : Nat → Evaluation (Option α)}
    {step' : Nat → Reader (Option α)} (h : ∀ index < limit, Safe (step index) (step' index)) :
    Safe (Evaluation.collect limit step) (Reader.collect limit step') := by
  induction limit generalizing step step' with
  | zero => rfl
  | succ limit ih =>
    rw [Evaluation.collect, Reader.collect_succ]
    refine .bind (h 0 (by omega)) fun found _ => ?_
    cases found with
    | none => exact .pure []
    | some value => exact .bind (ih fun index hi => h (index + 1) (by omega)) fun _ _ => .pure _

end Safe

end Evaluation

end PeCoff
