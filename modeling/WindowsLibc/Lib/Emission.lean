import Mathlib.Data.List.Basic

/-!
# Actions that only feed a sink

A program that writes to a sink and never asks it anything does the same whatever the sink is: the
same pieces in the same order, and the same value. `Sink.Emits x ws a` says so of an action `x`,
which may also fault (`none`); it is asked for sound sinks only, and soundness survives every piece.

* `emits_pure`, `emits_lift`, `emits_put` and `emits_bind` are the rules: a compound action emits what its parts
  emit, one after the other.
* `Emits.run` reads a given run off them.
-/

namespace WindowsLibc.Lib

/-- Sinks `σ` that take pieces `ω`. -/
structure Sink (σ ω : Type) where
  put : σ → ω → σ
  Sound : σ → Prop
  sound_put : ∀ s w, Sound s → Sound (put s w)

namespace Sink

variable {σ ω α β : Type} (S : Sink σ ω)

/-- Feed several pieces. -/
def puts (s : σ) (ws : List ω) : σ := ws.foldl S.put s

@[simp] theorem puts_cons (s : σ) (w : ω) (ws : List ω) :
    S.puts s (w :: ws) = S.puts (S.put s w) ws := rfl

theorem puts_append (s : σ) (ws vs : List ω) : S.puts s (ws ++ vs) = S.puts (S.puts s ws) vs :=
  List.foldl_append

theorem sound_puts {s : σ} (h : S.Sound s) (ws : List ω) : S.Sound (S.puts s ws) := by
  induction ws generalizing s with
  | nil => exact h
  | cons w ws ih => exact ih (S.sound_put s w h)

/-- Whatever the sink, `x` feeds it `ws` and returns `a`. -/
def Emits (x : StateT σ Option α) (ws : List ω) (a : α) : Prop :=
  ∀ s, S.Sound s → x s = some (a, S.puts s ws)

variable {S} {x : StateT σ Option α} {ws vs : List ω} {a : α} {b : β}

theorem emits_pure (a : α) : S.Emits (pure a) [] a := fun _ _ => rfl

theorem emits_lift (a : α) : S.Emits (StateT.lift (some a)) [] a := fun _ _ => rfl

theorem emits_put (w : ω) : S.Emits (modify (fun s => S.put s w)) [w] ⟨⟩ := fun _ _ => rfl

theorem emits_bind {f : α → StateT σ Option β} (hx : S.Emits x ws a) (hf : S.Emits (f a) vs b) :
    S.Emits (x >>= f) (ws ++ vs) b := by
  intro s hs
  have hx' := hx s hs
  have hf' := hf (S.puts s ws) (S.sound_puts hs ws)
  change (x s).bind (fun p => f p.1 p.2) = _
  rw [hx', Option.bind_some, hf', puts_append]

theorem Emits.run (h : S.Emits x ws a) {s s' : σ} (hs : S.Sound s) {a' : α}
    (hrun : x s = some (a', s')) : a' = a ∧ s' = S.puts s ws := by
  have heq := (h s hs).symm.trans hrun
  cases heq
  exact ⟨rfl, rfl⟩

end Sink

end WindowsLibc.Lib
