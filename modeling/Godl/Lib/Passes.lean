import Godl.Lib.Outcome

/-!
# Changes that pass through a computation

A computation on a state does not look at everything in it.  A change of what it does not
look at passes through: made before, it is found again afterwards.

## Main definitions

* `Passes m f s` — from `s`, the change `m` passes through the computation `f`.
* `Passes.bind_eq` — a block that begins with a change that passes through its first line.
-/

namespace Lib

variable {ε σ β : Type} {m : σ → σ} {f g : σ → Except ε σ} {s : σ}

/-- Making the change `m` before `f` is making it afterwards. -/
def Passes (m : σ → σ) (f : σ → Except ε σ) (s : σ) : Prop := f (m s) = m <$> f s

/-- The rest of a block sees the change that was made before its first line. -/
theorem Passes.bind_eq (h : Passes m f s) (k : σ → Except ε β) :
    f (m s) >>= k = f s >>= fun s' => k (m s') := by
  rw [h, bind_map_left]

/-- A change passes through two lines when it passes through both. -/
theorem Passes.bind (hf : Passes m f s) (hg : ∀ s', Passes m g s') :
    Passes m (fun s => f s >>= g) s := by
  rw [Passes, hf.bind_eq, map_bind]
  exact bind_congr hg

end Lib
