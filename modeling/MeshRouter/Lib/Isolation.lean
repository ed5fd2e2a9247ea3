import Mathlib.Data.List.Basic

/-!
# Isolation of the clients of a shared service

A service is a function `call : σ → ℓ → ρ × σ`: each call gives a reply, and the state for the next
call. Many clients share it, and what one of them depends on is a part of the state, `view`. The
calls that concern this client are those that `concerns` picks out.

The client is isolated when two things hold of single calls (`Isolates`): a call that does not
concern it leaves its part of the state alone, and a call that concerns it is answered, and changes
its part, by this part alone. Then in every interleaving with the calls of others the client gets
the replies that it would get if it used the service alone (`Isolates.alone`), and two interleavings
with the same calls of the client look the same to it (`Isolates.congr`).
-/

namespace MeshRouter.Lib

variable {σ ℓ ρ β : Type}

/-- The state after the calls. -/
def afterCalls (call : σ → ℓ → ρ × σ) : σ → List ℓ → σ
  | s, [] => s
  | s, c :: cs => afterCalls call (call s c).2 cs

/-- The replies to the calls that concern the client, in their order. -/
def replies (call : σ → ℓ → ρ × σ) (concerns : ℓ → Bool) : σ → List ℓ → List ρ
  | _, [] => []
  | s, c :: cs =>
    if concerns c then
      (call s c).1 :: replies call concerns (call s c).2 cs
    else
      replies call concerns (call s c).2 cs

/-- The service isolates the client: what others call does not reach its part of the state, and
what it calls depends on no more than this part. -/
structure Isolates (call : σ → ℓ → ρ × σ) (view : σ → β) (concerns : ℓ → Bool) : Prop where
  others : ∀ s c, concerns c = false → view (call s c).2 = view s
  own : ∀ s t c, concerns c = true → view s = view t →
    (call s c).1 = (call t c).1 ∧ view (call s c).2 = view (call t c).2

variable {call : σ → ℓ → ρ × σ} {view : σ → β} {concerns : ℓ → Bool}

/-- The client sees the same in a run without the calls of the others, from any state in which its
part is the same. -/
theorem Isolates.alone_from (h : Isolates call view concerns) {s t : σ} (hview : view s = view t)
    (cs : List ℓ) :
    replies call concerns s cs = replies call concerns t (cs.filter concerns) ∧
      view (afterCalls call s cs) = view (afterCalls call t (cs.filter concerns)) := by
  induction cs generalizing s t with
  | nil => exact ⟨rfl, hview⟩
  | cons c cs ih =>
    by_cases hc : concerns c = true
    · obtain ⟨hreply, hafter⟩ := h.own s t c hc hview
      obtain ⟨hreplies, hlast⟩ := ih hafter
      rw [List.filter_cons_of_pos hc]
      refine ⟨?_, hlast⟩
      rw [replies, replies, if_pos hc, if_pos hc, hreply, hreplies]
    · -- The other run skips the call, which has left the part of the client alone.
      have hskip := (h.others s c (Bool.eq_false_iff.mpr hc)).trans hview
      obtain ⟨hreplies, hlast⟩ := ih hskip
      rw [List.filter_cons_of_neg hc]
      refine ⟨?_, hlast⟩
      rw [replies, if_neg hc, hreplies]

/-- The client sees what it would see alone. -/
theorem Isolates.alone (h : Isolates call view concerns) (s : σ) (cs : List ℓ) :
    replies call concerns s cs = replies call concerns s (cs.filter concerns) ∧
      view (afterCalls call s cs) = view (afterCalls call s (cs.filter concerns)) :=
  h.alone_from rfl cs

/-- Two interleavings with the same calls of the client look the same to it. -/
theorem Isolates.congr (h : Isolates call view concerns) {s t : σ} (hview : view s = view t)
    {cs ds : List ℓ} (hcalls : cs.filter concerns = ds.filter concerns) :
    replies call concerns s cs = replies call concerns t ds ∧
      view (afterCalls call s cs) = view (afterCalls call t ds) := by
  obtain ⟨hcs, hcs'⟩ := h.alone_from hview cs
  obtain ⟨hds, hds'⟩ := h.alone_from (s := t) rfl ds
  rw [hcalls] at hcs hcs'
  exact ⟨hcs.trans hds.symm, hcs'.trans hds'.symm⟩

end MeshRouter.Lib
