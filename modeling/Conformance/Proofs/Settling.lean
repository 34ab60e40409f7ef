/- Computations that come to one result from every state, and the one-pass searches that the passes
   over a sequence come to when each of their checks does. -/
import Conformance.Verification.Verify
namespace Conformance

variable {σ α β : Type}

/-- The result of a computation does not depend on the state. The state it leaves is free: calls may
be counted or recorded there. -/
def Settles (x : CallM σ α) (r : Except Fault α) : Prop := ∀ s, (x s).1 = r

theorem bind_apply (x : CallM σ α) (f : α → CallM σ β) (s : σ) :
    (x >>= f) s = match x s with
      | (.ok a, s') => f a s'
      | (.error fault, s') => (.error fault, s') := by
  simp only [bind, ExceptT.bind, ExceptT.mk, StateT.bind]
  cases x s with
  | mk r s' => cases r <;> rfl

theorem bind_pure_apply (x : CallM σ α) (f : α → β) (s : σ) :
    (x >>= fun a => pure (f a)) s = ((x s).1.map f, (x s).2) := by
  rw [bind_apply]
  cases x s with
  | mk result s' => cases result <;> rfl

theorem bind_ofExcept_apply (x : CallM σ α) (f : α → Except Fault β) (s : σ) :
    (x >>= fun a => ofExcept (f a)) s = ((x s).1 >>= f, (x s).2) := by
  rw [bind_apply]
  cases x s with
  | mk result s' =>
    cases result with
    | error fault => rfl
    | ok a =>
      change (ofExcept (f a) : CallM σ β) s' = (f a, s')
      cases f a <;> rfl

theorem tryCatch_apply (x : CallM σ α) (handle : Fault → CallM σ α) (s : σ) :
    (tryCatch x handle : CallM σ α) s = match x s with
      | (.ok a, s') => (.ok a, s')
      | (.error fault, s') => handle fault s' := by
  simp only [tryCatch, tryCatchThe, MonadExceptOf.tryCatch, ExceptT.tryCatch, ExceptT.mk, bind,
    StateT.bind]
  cases x s with
  | mk r s' => cases r <;> rfl

section Runs

variable {s s' : σ}

theorem bind_run_eq_ok_iff {x : CallM σ α} {f : α → CallM σ β} {b : β} :
    (x >>= f) s = (.ok b, s') ↔ ∃ a s₁, x s = (.ok a, s₁) ∧ f a s₁ = (.ok b, s') := by
  rw [bind_apply]
  constructor
  · intro h
    split at h
    next a s₁ hx => exact ⟨a, s₁, hx, h⟩
    next => cases h
  · rintro ⟨a, s₁, hx, hf⟩
    rw [hx]
    exact hf

theorem pure_run_eq_ok_iff {a b : α} :
    (pure a : CallM σ α) s = (.ok b, s') ↔ a = b ∧ s = s' := by
  change (Except.ok a, s) = (Except.ok b, s') ↔ _
  rw [Prod.mk.injEq, Except.ok.injEq]

theorem ofExcept_run_eq_ok_iff {r : Except Fault α} {a : α} :
    (ofExcept r : CallM σ α) s = (.ok a, s') ↔ r = .ok a ∧ s = s' := by
  cases r with
  | ok b =>
    rw [Except.ok.injEq]
    exact pure_run_eq_ok_iff
  | error fault =>
    change (Except.error fault, s) = (Except.ok a, s') ↔ _
    simp

end Runs

namespace Settles

theorem pure (a : α) : Settles (pure a : CallM σ α) (.ok a) := fun _ => rfl

theorem throw (fault : Fault) : Settles (throw fault : CallM σ α) (.error fault) := fun _ => rfl

theorem bind_ok {x : CallM σ α} {a : α} {f : α → CallM σ β} {r : Except Fault β}
    (hx : Settles x (.ok a)) (hf : Settles (f a) r) : Settles (x >>= f) r := by
  intro s
  rw [bind_apply]
  have hs := hx s
  cases hrun : x s with
  | mk result s' =>
    rw [hrun] at hs
    subst hs
    exact hf s'

theorem bind_error {x : CallM σ α} {fault : Fault} (hx : Settles x (.error fault))
    (f : α → CallM σ β) : Settles (x >>= f) (.error fault) := by
  intro s
  rw [bind_apply]
  have hs := hx s
  cases hrun : x s with
  | mk result s' =>
    rw [hrun] at hs
    subst hs
    rfl

theorem bind {x : CallM σ α} {r : Except Fault α} {f : α → CallM σ β} {g : α → Except Fault β}
    (hx : Settles x r) (hf : ∀ a, Settles (f a) (g a)) : Settles (x >>= f) (r >>= g) := by
  cases r with
  | ok a => exact hx.bind_ok (hf a)
  | error fault => exact hx.bind_error f

theorem ofExcept (r : Except Fault α) : Settles (ofExcept r : CallM σ α) r := by
  cases r with
  | ok a => exact .pure a
  | error fault => exact .throw fault

theorem tryCatch_ok {x : CallM σ α} {a : α} (hx : Settles x (.ok a))
    (handle : Fault → CallM σ α) : Settles (tryCatch x handle) (.ok a) := by
  intro s
  rw [tryCatch_apply]
  have hs := hx s
  cases hrun : x s with
  | mk result s' =>
    rw [hrun] at hs
    subst hs
    rfl

theorem tryCatch_error {x : CallM σ α} {fault : Fault} {handle : Fault → CallM σ α}
    {r : Except Fault α} (hx : Settles x (.error fault)) (hr : Settles (handle fault) r) :
    Settles (tryCatch x handle) r := by
  intro s
  rw [tryCatch_apply]
  have hs := hx s
  cases hrun : x s with
  | mk result s' =>
    rw [hrun] at hs
    subst hs
    exact hr s'

end Settles

section Outcomes

theorem bind_eq_error_iff {x : Except Fault α} {f : α → Except Fault β} {fault : Fault} :
    (x >>= f) = .error fault ↔ x = .error fault ∨ ∃ a, x = .ok a ∧ f a = .error fault := by
  cases x with
  | error fault' =>
    change Except.error fault' = Except.error fault ↔ _
    simp
  | ok a =>
    change f a = Except.error fault ↔ _
    simp

theorem bind_eq_ok_iff {x : Except Fault α} {f : α → Except Fault β} {b : β} :
    (x >>= f) = .ok b ↔ ∃ a, x = .ok a ∧ f a = .ok b := by
  cases x with
  | error fault =>
    change Except.error fault = Except.ok b ↔ _
    simp
  | ok a =>
    change f a = Except.ok b ↔ _
    simp

end Outcomes

/-- All items are as they should be, or there is a first one that is not. -/
theorem forall_or_first (p : α → Prop) (xs : List α) : (∀ x ∈ xs, p x) ∨
    ∃ before x after, xs = before ++ x :: after ∧ (∀ y ∈ before, p y) ∧ ¬ p x := by
  induction xs with
  | nil => exact .inl (by simp)
  | cons x xs ih =>
    by_cases hx : p x
    · rcases ih with hall | ⟨before, y, after, rfl, hbefore, hy⟩
      · exact .inl (List.forall_mem_cons.mpr ⟨hx, hall⟩)
      · exact .inr ⟨x :: before, y, after, rfl, List.forall_mem_cons.mpr ⟨hx, hbefore⟩, hy⟩
    · exact .inr ⟨[], x, xs, rfl, by simp, hx⟩

section Searches

variable {check check' : α → Except Fault Verdict}

def firstReason (check : α → Except Fault Verdict) : List α → Except Fault Verdict
  | [] => .ok none
  | x :: xs =>
    match check x with
    | .ok none => firstReason check xs
    | outcome => outcome

/-- Whether a check passes. The first that does ends the search, and so does a fault. -/
def somePasses (check : α → Except Fault Verdict) : List α → Except Fault Bool
  | [] => .ok false
  | x :: xs =>
    match check x with
    | .ok none => .ok true
    | .ok (some _) => somePasses check xs
    | .error fault => .error fault

theorem firstReason_cons_pass {x : α} (h : check x = .ok none) (xs : List α) :
    firstReason check (x :: xs) = firstReason check xs := by
  simp only [firstReason, h]

theorem firstReason_cons_stop {x : α} (h : check x ≠ .ok none) (xs : List α) :
    firstReason check (x :: xs) = check x := by
  unfold firstReason
  split
  · contradiction
  · rfl

theorem somePasses_cons_reject {x : α} {reason : Value} (h : check x = .ok (some reason))
    (xs : List α) : somePasses check (x :: xs) = somePasses check xs := by
  simp only [somePasses, h]

theorem firstReason_append {before : List α} (h : ∀ y ∈ before, check y = .ok none)
    (xs : List α) : firstReason check (before ++ xs) = firstReason check xs := by
  induction before with
  | nil => rfl
  | cons y before ih =>
    rw [List.cons_append, firstReason_cons_pass (h y List.mem_cons_self)]
    exact ih fun z hz => h z (List.mem_cons_of_mem y hz)

theorem somePasses_append {before : List α}
    (h : ∀ y ∈ before, ∃ reason, check y = .ok (some reason)) (xs : List α) :
    somePasses check (before ++ xs) = somePasses check xs := by
  induction before with
  | nil => rfl
  | cons y before ih =>
    obtain ⟨reason, hy⟩ := h y List.mem_cons_self
    rw [List.cons_append, somePasses_cons_reject hy]
    exact ih fun z hz => h z (List.mem_cons_of_mem y hz)

theorem firstReason_eq_none_iff {xs : List α} :
    firstReason check xs = .ok none ↔ ∀ x ∈ xs, check x = .ok none := by
  constructor
  · intro h
    induction xs with
    | nil => intro x hx; cases hx
    | cons y xs ih =>
      by_cases hy : check y = .ok none
      · rw [firstReason_cons_pass hy] at h
        exact List.forall_mem_cons.mpr ⟨hy, ih h⟩
      · rw [firstReason_cons_stop hy] at h
        exact absurd h hy
  · intro h
    have happ := firstReason_append h []
    rw [List.append_nil] at happ
    exact happ

/-- What a search ends with, if not with nothing, is the outcome of its first check that does not
pass. -/
theorem firstReason_eq_iff {xs : List α} {outcome : Except Fault Verdict}
    (hne : outcome ≠ .ok none) :
    firstReason check xs = outcome ↔ ∃ before x after, xs = before ++ x :: after ∧
      (∀ y ∈ before, check y = .ok none) ∧ check x = outcome := by
  constructor
  · intro h
    induction xs with
    | nil => exact absurd h.symm hne
    | cons x xs ih =>
      by_cases hx : check x = .ok none
      · rw [firstReason_cons_pass hx] at h
        obtain ⟨before, y, after, rfl, hbefore, hy⟩ := ih h
        exact ⟨x :: before, y, after, rfl, List.forall_mem_cons.mpr ⟨hx, hbefore⟩, hy⟩
      · rw [firstReason_cons_stop hx] at h
        exact ⟨[], x, xs, rfl, by simp, h⟩
  · rintro ⟨before, x, after, rfl, hbefore, hx⟩
    rw [firstReason_append hbefore, firstReason_cons_stop (hx ▸ hne), hx]

theorem somePasses_eq_error_iff {xs : List α} {fault : Fault} :
    somePasses check xs = .error fault ↔ ∃ before x after, xs = before ++ x :: after ∧
      (∀ y ∈ before, ∃ reason, check y = .ok (some reason)) ∧ check x = .error fault := by
  constructor
  · intro h
    induction xs with
    | nil => cases h
    | cons x xs ih =>
      unfold somePasses at h
      split at h
      next => cases h
      next reason hx =>
        obtain ⟨before, y, after, rfl, hbefore, hy⟩ := ih h
        exact ⟨x :: before, y, after, rfl, List.forall_mem_cons.mpr ⟨⟨reason, hx⟩, hbefore⟩, hy⟩
      next fault' hx =>
        cases h
        exact ⟨[], x, xs, rfl, by simp, hx⟩
  · rintro ⟨before, x, after, rfl, hbefore, hx⟩
    rw [somePasses_append hbefore]
    simp only [somePasses, hx]

/-- Where no check faults, the order of a search does not show. -/
theorem somePasses_eq_true_iff {xs : List α} (h : ∀ x ∈ xs, ∃ verdict, check x = .ok verdict) :
    somePasses check xs = .ok true ↔ ∃ x ∈ xs, check x = .ok none := by
  induction xs with
  | nil => simp [somePasses]
  | cons x xs ih =>
    obtain ⟨verdict, hx⟩ := h x List.mem_cons_self
    have ih := ih fun y hy => h y (List.mem_cons_of_mem x hy)
    cases verdict with
    | none => simp [somePasses, hx]
    | some reason => simp [somePasses, hx, ih]

end Searches

theorem allPass_map (verify : β → CallM σ Verdict) (g : α → β) (xs : List α) :
    allPass verify (xs.map g) = allPass (fun x => verify (g x)) xs := by
  induction xs with
  | nil => rfl
  | cons x xs ih =>
    rw [List.map_cons, allPass, allPass]
    rw [ih]

theorem searchReason_map (verify : β → CallM σ Verdict) (g : α → β) (xs : List α) :
    searchReason verify (xs.map g) = searchReason (fun x => verify (g x)) xs := by
  induction xs with
  | nil => rfl
  | cons x xs ih =>
    rw [List.map_cons, searchReason, searchReason]
    rw [ih]

theorem firstError_map (verify : β → CallM σ Verdict) (g : α → β) (xs : List α) :
    firstError verify (xs.map g) = firstError (fun x => verify (g x)) xs := by
  unfold firstError
  rw [allPass_map, searchReason_map]

section Passes

variable {verify : α → CallM σ Verdict} {check : α → Except Fault Verdict} {xs : List α}

theorem settles_searchReason (h : ∀ x ∈ xs, Settles (verify x) (check x)) :
    Settles (searchReason verify xs) (firstReason check xs) := by
  induction xs with
  | nil => exact .pure none
  | cons x xs ih =>
    have hx := h x List.mem_cons_self
    have hrest := ih fun y hy => h y (List.mem_cons_of_mem x hy)
    cases hcheck : check x with
    | error fault =>
      rw [firstReason_cons_stop (by simp [hcheck]), hcheck]
      exact (hcheck ▸ hx).bind_error _
    | ok verdict =>
      refine (hcheck ▸ hx).bind_ok ?_
      cases verdict with
      | none =>
        rw [firstReason_cons_pass hcheck]
        exact hrest
      | some reason =>
        rw [firstReason_cons_stop (by simp [hcheck]), hcheck]
        exact .pure (some reason)

theorem settles_allPass (h : ∀ x ∈ xs, Settles (verify x) (check x)) :
    Settles (allPass verify xs) ((firstReason check xs).map Option.isNone) := by
  induction xs with
  | nil => exact .pure true
  | cons x xs ih =>
    have hx := h x List.mem_cons_self
    have hrest := ih fun y hy => h y (List.mem_cons_of_mem x hy)
    cases hcheck : check x with
    | error fault =>
      rw [firstReason_cons_stop (by simp [hcheck]), hcheck]
      exact (hcheck ▸ hx).bind_error _
    | ok verdict =>
      refine (hcheck ▸ hx).bind_ok ?_
      cases verdict with
      | none =>
        rw [firstReason_cons_pass hcheck]
        exact hrest
      | some reason =>
        rw [firstReason_cons_stop (by simp [hcheck]), hcheck]
        exact .pure false

/-- The second pass finds what ended the first one. -/
theorem settles_firstError (h : ∀ x ∈ xs, Settles (verify x) (check x)) :
    Settles (firstError verify xs) (firstReason check xs) := by
  have hall := settles_allPass h
  have hsearch := settles_searchReason h
  cases hreason : firstReason check xs with
  | error fault =>
    rw [hreason] at hall
    exact hall.bind_error _
  | ok verdict =>
    rw [hreason] at hall hsearch
    refine hall.bind_ok ?_
    cases verdict with
    | none => exact .pure none
    | some reason => exact hsearch

theorem settles_anyPasses {v : Value} {verifier : α → Verifier σ}
    (h : ∀ x ∈ xs, Settles (verifier x v) (check x)) :
    Settles (anyPasses v (xs.map verifier)) (somePasses check xs) := by
  induction xs with
  | nil => exact .pure false
  | cons x xs ih =>
    have hx := h x List.mem_cons_self
    have hrest := ih fun y hy => h y (List.mem_cons_of_mem x hy)
    unfold somePasses
    cases hcheck : check x with
    | error fault => exact (hcheck ▸ hx).bind_error _
    | ok verdict =>
      refine (hcheck ▸ hx).bind_ok ?_
      cases verdict with
      | none => exact .pure true
      | some reason => exact hrest

end Passes

end Conformance
