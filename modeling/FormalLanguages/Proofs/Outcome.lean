/-
# Outcomes are computed by rewriting

Every operation that can end in a fault is written in the monad of outcomes.  The lemmas here
take such an operation apart once it is known which of its steps succeed: a step that succeeds
hands its value on, a step that ends in a fault ends the whole, and a loop over a list whose
steps all succeed is the loop without faults.
-/

import FormalLanguages.Fault

namespace FormalLanguages

variable {ε α β : Type}

@[simp]
theorem ok_bind (value : α) (next : α → Except ε β) : (Except.ok value >>= next) = next value :=
  rfl

@[simp]
theorem error_bind (fault : ε) (next : α → Except ε β) :
    (Except.error fault >>= next) = .error fault := rfl

@[simp]
theorem pure_eq_ok (value : α) : (pure value : Except ε α) = .ok value := rfl

/-- What succeeds in two steps has succeeded in each. -/
theorem bind_eq_ok {first : Except ε α} {next : α → Except ε β} {result : β} :
    first >>= next = .ok result ↔ ∃ value, first = .ok value ∧ next value = .ok result := by
  cases first <;> simp

/-- What ends in a fault has done so in one of its steps. -/
theorem bind_eq_error {first : Except ε α} {next : α → Except ε β} {fault : ε} :
    first >>= next = .error fault ↔
      first = .error fault ∨ ∃ value, first = .ok value ∧ next value = .error fault := by
  cases first <;> simp

theorem Except.map_eq_ok_iff {value : α → β} {first : Except ε α} {result : β} :
    first.map value = .ok result ↔ ∃ found, first = .ok found ∧ value found = result := by
  cases first <;> simp [Except.map]

theorem Except.map_eq_error_iff {value : α → β} {first : Except ε α} {fault : ε} :
    first.map value = .error fault ↔ first = .error fault := by
  cases first <;> simp [Except.map]

/-- What begins with a check ends in the fault of the check, or in one of what follows it. -/
theorem check_bind_eq_error {check : Except ε Unit} {next : Except ε β} {fault : ε} :
    (check >>= fun _ => next) = .error fault ↔
      check = .error fault ∨ check = .ok () ∧ next = .error fault := by
  cases check <;> simp

/-- A loop that visits a list without faults collects what its steps give. -/
theorem mapM_eq_ok {step : α → Except ε β} {value : α → β} {list : List α}
    (hstep : ∀ x ∈ list, step x = .ok (value x)) : list.mapM step = .ok (list.map value) := by
  induction list with
  | nil => rfl
  | cons x rest ih =>
      rw [List.mapM_cons, hstep x List.mem_cons_self, ok_bind,
        ih fun y hy => hstep y (List.mem_cons_of_mem x hy)]
      rfl

/-- A loop that visits a list without faults has passed every element. -/
theorem forM_eq_ok {step : α → Except ε PUnit} {list : List α} (hloop : list.forM step = .ok ())
    (x : α) (hx : x ∈ list) : step x = .ok () := by
  induction list with
  | nil => cases hx
  | cons first rest ih =>
      have ⟨_, hfirst, hrest⟩ := bind_eq_ok.mp hloop
      rcases List.mem_cons.mp hx with rfl | hx
      · exact hfirst
      · exact ih hrest hx

/-- A loop over a list ends in the fault of the first step that has one. -/
theorem forM_eq_error_iff {step : α → Except ε PUnit} {list : List α} {fault : ε} :
    list.forM step = .error fault ↔
      ∃ before x after, list = before ++ x :: after ∧ (∀ y ∈ before, step y = .ok ()) ∧
        step x = .error fault := by
  induction list with
  | nil =>
      constructor
      · intro hloop
        cases hloop
      · rintro ⟨before, x, after, hlist, -⟩
        cases before <;> cases hlist
  | cons first rest ih =>
      have hloop : (first :: rest).forM step = step first >>= fun _ => rest.forM step := rfl
      rw [hloop]
      cases hfirst : step first with
      | error other =>
          constructor
          · rintro ⟨⟩
            exact ⟨[], first, rest, rfl, by simp, hfirst⟩
          · rintro ⟨before, x, after, hlist, hbefore, hx⟩
            cases before with
            | nil =>
                cases hlist
                exact hfirst.symm.trans hx
            | cons y before =>
                cases hlist
                cases hfirst.symm.trans (hbefore first List.mem_cons_self)
      | ok passed =>
          rw [ok_bind, ih]
          constructor
          · rintro ⟨before, x, after, rfl, hbefore, hx⟩
            exact ⟨first :: before, x, after, rfl,
              List.forall_mem_cons.mpr ⟨hfirst, hbefore⟩, hx⟩
          · rintro ⟨before, x, after, hlist, hbefore, hx⟩
            cases before with
            | nil =>
                cases hlist
                cases hfirst.symm.trans hx
            | cons y before =>
                cases hlist
                exact ⟨before, x, after, rfl,
                  fun z hz => hbefore z (List.mem_cons_of_mem _ hz), hx⟩

/-- A search of a list whose tests end without faults is the search with these tests. -/
theorem findM?_eq_ok (list : List α) {test : α → Except ε Bool} {holds : α → Bool}
    (htest : ∀ x ∈ list, test x = .ok (holds x)) :
    list.findM? test = .ok (list.find? holds) := by
  induction list with
  | nil => rfl
  | cons x rest ih =>
      rw [List.findM?, htest x List.mem_cons_self, ok_bind, List.find?_cons]
      cases holds x with
      | true => rfl
      | false => exact ih fun y hy => htest y (List.mem_cons_of_mem x hy)

/-- Two outcomes that are the same fault, or two values that stand in a relation. -/
inductive Agree {γ : Type} (related : α → γ → Prop) : Except ε α → Except ε γ → Prop
  | ok {value : α} {other : γ} (hrelated : related value other) :
      Agree related (.ok value) (.ok other)
  | error (fault : ε) : Agree related (.error fault) (.error fault)

theorem Agree.imp {γ : Type} {related weaker : α → γ → Prop} {first : Except ε α}
    {second : Except ε γ} (hagree : Agree related first second)
    (himp : ∀ value other, related value other → weaker value other) :
    Agree weaker first second := by
  cases hagree with
  | ok hrelated => exact .ok (himp _ _ hrelated)
  | error fault => exact .error fault

theorem Agree.results {γ : Type} {related : α → γ → Prop} {first : Except ε α}
    {second : Except ε γ} (hagree : Agree related first second) :
    (∃ value other, first = .ok value ∧ second = .ok other ∧ related value other) ∨
      ∃ fault, first = .error fault ∧ second = .error fault := by
  cases hagree with
  | ok hrelated => exact .inl ⟨_, _, rfl, rfl, hrelated⟩
  | error fault => exact .inr ⟨fault, rfl, rfl⟩

theorem Agree.symm {γ : Type} {related : α → γ → Prop} {first : Except ε α} {second : Except ε γ}
    (hagree : Agree related first second) :
    Agree (fun other value => related value other) second first := by
  cases hagree with
  | ok hrelated => exact .ok hrelated
  | error fault => exact .error fault

theorem Agree.trans {γ δ : Type} {related : α → γ → Prop} {onward : γ → δ → Prop}
    {first : Except ε α} {second : Except ε γ} {third : Except ε δ}
    (hfirst : Agree related first second) (hsecond : Agree onward second third) :
    Agree (fun value last => ∃ other, related value other ∧ onward other last) first third := by
  cases hfirst with
  | ok hrelated =>
      cases hsecond with
      | ok honward => exact .ok ⟨_, hrelated, honward⟩
  | error fault =>
      cases hsecond
      exact .error fault

/-- Outcomes agree if they are the same once something is forgotten of their values. -/
theorem agree_of_map_eq {γ : Type} {forget : α → β} {forget' : γ → β} {first : Except ε α}
    {second : Except ε γ} (hmap : forget <$> first = forget' <$> second) :
    Agree (fun value other => forget value = forget' other) first second := by
  cases first with
  | ok value =>
      cases second with
      | ok other => exact .ok (Except.ok.inj hmap)
      | error fault => cases hmap
  | error fault =>
      cases second with
      | ok other => cases hmap
      | error fault' =>
          cases hmap
          exact .error fault

/-- Outcomes agree if their first steps do, and what follows the first steps does. -/
theorem Agree.bind {γ δ : Type} {related : α → γ → Prop} {after : β → δ → Prop}
    {first : Except ε α} {second : Except ε γ} {next : α → Except ε β} {follow : γ → Except ε δ}
    (hfirst : Agree related first second)
    (hnext : ∀ value other, related value other → Agree after (next value) (follow other)) :
    Agree after (first >>= next) (second >>= follow) := by
  cases hfirst with
  | ok hrelated => exact hnext _ _ hrelated
  | error fault => exact .error fault

end FormalLanguages
