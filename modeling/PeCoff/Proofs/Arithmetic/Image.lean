import PeCoff.Image
import PeCoff.Proofs.Arithmetic.Resource

/-!
# Arithmetic of images

`evaluate_checked`: reading an image with every number in its width, every index
in its range and every position below 2³⁴ meets no fault, whatever the bytes. The
outcome is that of arithmetic without widths.
-/

namespace PeCoff

def Evaluation.readImage (loaded : Bool) : Evaluation Image := do
  let headers ← readHeaders loaded
  let managed ← findManagedHeader headers
  let exports ← readExports headers
  let imports ← readImports headers
  let debug ← readDebug headers
  let resources ← readTable headers
  pure { headers, exports, imports, debug, resources, managed }

theorem Evaluation.safe_readImage (loaded : Bool) :
    Safe (readImage loaded) (Image.reader loaded) := by
  unfold readImage Image.reader
  refine .bind (safe_readHeaders loaded) fun headers _ => ?_
  refine .bind (safe_findManagedHeader headers) fun managed _ => ?_
  refine .bind (safe_readExports headers) fun exports _ => ?_
  refine .bind (safe_readImports headers) fun imports _ => ?_
  refine .bind (safe_readDebug headers) fun debug _ => ?_
  exact .bind (safe_readTable headers) fun resources _ => .pure _

namespace Image

/-- Reads an image with the arithmetic made explicit. -/
def evaluate (arithmetic : Arithmetic) (bytes : ByteArray) (loaded : Bool) : Except Stop Image :=
  (Evaluation.readImage loaded arithmetic bytes 0).map Prod.fst

/-- Neither arithmetic is at fault, and only the bytes decide what is read. -/
theorem evaluate_eq (arithmetic : Arithmetic) (bytes : ByteArray) (loaded : Bool) :
    evaluate arithmetic bytes loaded = (read bytes loaded).mapError .cause := by
  rw [evaluate, Evaluation.safe_readImage loaded]
  unfold Evaluation.lift read Reader.value
  cases (reader loaded).run bytes 0 <;> rfl

theorem evaluate_checked (bytes : ByteArray) (loaded : Bool) :
    (∀ fault, evaluate .checked bytes loaded ≠ .error (.fault fault)) ∧
    evaluate .checked bytes loaded = evaluate .unbounded bytes loaded ∧
    evaluate .checked bytes loaded = (read bytes loaded).mapError .cause := by
  refine ⟨fun fault h => ?_, ?_, evaluate_eq _ _ _⟩
  · rw [evaluate_eq] at h
    cases hr : read bytes loaded with
    | error cause =>
      rw [hr] at h
      cases h
    | ok image =>
      rw [hr] at h
      cases h
  · rw [evaluate_eq, evaluate_eq]

end Image

end PeCoff
