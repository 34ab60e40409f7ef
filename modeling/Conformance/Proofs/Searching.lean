/- What a search for a reason asks, whatever its verifier does: one pass up to the first answer that
   is not quiet, and after a reason another pass from the start. The passes may end at different
   places; where each item has one answer they are the same. -/
import Conformance.Proofs.Visiting
namespace Conformance

variable {σ α β : Type}

section Sweep

variable {ends : Except Fault β → Bool} {xs : List α} {calls calls' : List (Call α β)}

theorem Sweep.length_le (h : Sweep ends xs calls) : calls.length ≤ xs.length := by
  have hle := h.in_order.length_le
  rw [List.length_map] at hle
  exact hle

theorem Sweep.unique {out : α → Except Fault β} (h : Sweep ends xs calls)
    (h' : Sweep ends xs calls') (hout : ∀ c ∈ calls, c.outcome = out c.argument)
    (hout' : ∀ c ∈ calls', c.outcome = out c.argument) : calls = calls' := by
  induction h generalizing calls' with
  | nil =>
    cases h'
    rfl
  | @stop x xs outcome hends =>
    have hx : outcome = out x := hout _ List.mem_cons_self
    subst hx
    cases h' with
    | @stop _ _ outcome' _ =>
      have hx' : outcome' = out x := hout' _ List.mem_cons_self
      rw [hx']
    | @next _ _ outcome' _ hends' _ =>
      have hx' : outcome' = out x := hout' _ List.mem_cons_self
      cases hends.symm.trans (hx' ▸ hends')
  | @next x xs outcome calls hends _ ih =>
    have hx : outcome = out x := hout _ List.mem_cons_self
    subst hx
    cases h' with
    | @stop _ _ outcome' hends' =>
      have hx' : outcome' = out x := hout' _ List.mem_cons_self
      cases hends.symm.trans (hx' ▸ hends')
    | @next _ _ outcome' rest _ hsweep =>
      have hx' : outcome' = out x := hout' _ List.mem_cons_self
      have hrest := ih hsweep (List.forall_mem_cons.mp hout).2 (List.forall_mem_cons.mp hout').2
      rw [hx', hrest]

end Sweep

section Search

variable {verify : α → CallM σ Verdict} {xs : List α} {s s' : σ} {r : Except Fault Verdict}
variable {calls : List (Call α Verdict)}

theorem TwoPasses.length_le (h : TwoPasses xs calls r) : calls.length ≤ 2 * xs.length := by
  cases h with
  | once hsweep _ =>
    have hle := hsweep.length_le
    omega
  | again hfirst _ hsecond =>
    have hle := hfirst.length_le
    have hle' := hsecond.length_le
    rw [List.length_append]
    omega

end Search

end Conformance
