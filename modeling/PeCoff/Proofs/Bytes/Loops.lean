import PeCoff.Bytes.Reader

/-!
# Loops, one round at a time

Every loop over readers keeps what it has read in a list that it turns around at
the end. Seen from outside it reads one value, then the others, and puts the
first in front. These equations say so, and later proofs use nothing else of the
loops.
-/

namespace PeCoff.Reader

theorem run_bind_eq (first : Reader α) (next : α → Reader β) (bytes : ByteArray)
    (position : Nat) :
    (first >>= next).run bytes position =
      first.run bytes position >>= fun result => (next result.1).run bytes result.2 := by
  rw [run_bind]
  cases first.run bytes position <;> rfl

theorem ext_run {first second : Reader α}
    (h : ∀ bytes position, first.run bytes position = second.run bytes position) :
    first = second :=
  congrArg Reader.mk (funext fun bytes => funext fun position => h bytes position)

-- ---------------------------------------------------------------------------
-- Folding
-- ---------------------------------------------------------------------------

theorem fold_nil (step : σ → α → Reader σ) (state : σ) : fold step state [] = pure state := rfl

theorem fold_cons (step : σ → α → Reader σ) (state : σ) (item : α) (rest : List α) :
    fold step state (item :: rest) = step state item >>= fun state => fold step state rest := rfl

theorem fold_push (read : α → Reader γ) (put : γ → List β) (done : List β) (items : List α) :
    fold (fun done item => do pure (put (← read item) ++ done)) done items = (do
      let more ← fold (fun done item => do pure (put (← read item) ++ done)) [] items
      pure (more ++ done)) := by
  induction items generalizing done with
  | nil => rfl
  | cons item rest ih =>
    simp only [fold_cons, bind_assoc, pure_bind, List.append_nil]
    congr 1
    funext value
    rw [ih (put value ++ done), ih (put value)]
    simp only [bind_assoc, pure_bind, List.append_assoc]

theorem mapEach_cons (read : α → Reader β) (item : α) (rest : List α) :
    mapEach read (item :: rest) = (do
      let value ← read item
      let values ← mapEach read rest
      pure (value :: values)) := by
  rw [mapEach, mapEach, fold_cons]
  simp only [bind_assoc, pure_bind]
  congr 1
  funext value
  have h := fold_push read (fun value => [value]) [value] rest
  simp only [List.cons_append, List.nil_append] at h
  rw [h]
  simp only [bind_assoc, pure_bind, List.reverse_append, List.reverse_singleton,
    List.cons_append, List.nil_append]

theorem filterMap_eq (read : α → Reader (Option β)) (items : List α) :
    filterMap read items = (do
      let done ← fold (fun done item => do pure ((← read item).toList ++ done)) [] items
      pure done.reverse) := by
  unfold filterMap
  congr 2
  funext done item
  congr 1
  funext found
  cases found <;> rfl

theorem filterMap_cons (read : α → Reader (Option β)) (item : α) (rest : List α) :
    filterMap read (item :: rest) = (do
      let found ← read item
      let values ← filterMap read rest
      pure (found.toList ++ values)) := by
  rw [filterMap_eq, filterMap_eq, fold_cons]
  simp only [bind_assoc, pure_bind, List.append_nil]
  congr 1
  funext found
  have ht : found.toList.reverse = found.toList := by cases found <;> rfl
  rw [fold_push read Option.toList found.toList rest]
  simp only [bind_assoc, pure_bind, List.reverse_append, ht]

theorem mapEach_eq_filterMap (read : α → Reader β) (items : List α) :
    mapEach read items = filterMap (fun item => do pure (some (← read item))) items := by
  induction items with
  | nil => rfl
  | cons item rest ih =>
    simp only [mapEach_cons, filterMap_cons, ih, bind_assoc, pure_bind, Option.toList_some,
      List.singleton_append]

-- ---------------------------------------------------------------------------
-- Repeating
-- ---------------------------------------------------------------------------

theorem times_go (bytes : ByteArray) (reader : Reader α) (count : Nat) (done : List α)
    (position : Nat) :
    times.go reader bytes count done position =
      ((times count reader).run bytes position).map fun result =>
        (done.reverse ++ result.1, result.2) := by
  simp only [times]
  induction count generalizing done position with
  | zero => simp [times.go, Except.map]
  | succ count ih =>
    simp only [times.go]
    cases reader.run bytes position with
    | error cause => rfl
    | ok result =>
      obtain ⟨value, after⟩ := result
      simp only
      rw [ih (value :: done), ih [value]]
      cases times.go reader bytes count [] after <;> simp [Except.map]

theorem times_zero (reader : Reader α) : times 0 reader = pure [] := rfl

theorem times_succ (count : Nat) (reader : Reader α) :
    times (count + 1) reader = (do
      let value ← reader
      let values ← times count reader
      pure (value :: values)) := by
  refine ext_run fun bytes position => ?_
  simp only [run_bind]
  rw [show (times (count + 1) reader).run bytes position =
    times.go reader bytes (count + 1) [] position from rfl, times.go]
  cases reader.run bytes position with
  | error cause => rfl
  | ok result =>
    obtain ⟨value, after⟩ := result
    simp only [times_go bytes reader count [value] after]
    cases (times count reader).run bytes after <;> rfl

theorem collect_go_index (step : Nat → Reader (Option α)) (bytes : ByteArray)
    (left offset index : Nat) (done : List α) (position : Nat) :
    collect.go (fun later => step (offset + later)) bytes left index done position =
      collect.go step bytes left (offset + index) done position := by
  induction left generalizing index done position with
  | zero => rfl
  | succ left ih =>
    simp only [collect.go]
    cases (step (offset + index)).run bytes position with
    | error cause => rfl
    | ok result =>
      obtain ⟨_ | value, after⟩ := result
      · rfl
      · exact ih (index + 1) (value :: done) after

theorem collect_go (step : Nat → Reader (Option α)) (bytes : ByteArray) (left index : Nat)
    (done : List α) (position : Nat) :
    collect.go step bytes left index done position =
      ((collect left fun later => step (index + later)).run bytes position).map fun result =>
        (done.reverse ++ result.1, result.2) := by
  simp only [collect, collect_go_index, Nat.add_zero]
  induction left generalizing index done position with
  | zero => simp [collect.go, Except.map]
  | succ left ih =>
    simp only [collect.go]
    cases (step index).run bytes position with
    | error cause => rfl
    | ok result =>
      obtain ⟨_ | value, after⟩ := result
      · simp [Except.map]
      · simp only
        rw [ih (index + 1) (value :: done), ih (index + 1) [value]]
        cases collect.go step bytes left (index + 1) [] after <;> simp [Except.map]

theorem collect_succ (limit : Nat) (step : Nat → Reader (Option α)) :
    collect (limit + 1) step = (do
      match ← step 0 with
      | none => pure []
      | some value => do
        let values ← collect limit fun index => step (index + 1)
        pure (value :: values)) := by
  refine ext_run fun bytes position => ?_
  rw [show (collect (limit + 1) step).run bytes position =
    collect.go step bytes (limit + 1) 0 [] position from rfl, collect.go, run_bind]
  cases (step 0).run bytes position with
  | error cause => rfl
  | ok result =>
    obtain ⟨_ | value, after⟩ := result
    · rfl
    · simp only [collect_go step bytes limit (0 + 1), run_bind, Nat.add_comm]
      cases (collect limit fun index => step (index + 1)).run bytes after <;> rfl

end PeCoff.Reader
