import Mathlib.Data.List.Forall2

/-!
# Lists and checks

Two cuts of one list are the same, or one of them lies before the other. A check ends with a value
or with an error, and a check made of several ends with a value exactly if each of them does. A run
of steps that end with a value is made of the values of its steps.
-/

namespace NifBindings

variable {ε α β σ τ : Type}

/-- Of two cuts of a list at an element, either both are the same or one lies before the other. -/
theorem append_cons_cases {a b c d : List α} {x y : α} (h : a ++ x :: b = c ++ y :: d) :
    (a = c ∧ x = y ∧ b = d) ∨ (∃ more, c = a ++ x :: more ∧ b = more ++ y :: d) ∨
      ∃ more, a = c ++ y :: more ∧ d = more ++ x :: b := by
  rcases List.append_eq_append_iff.mp h with ⟨more, hc, hb⟩ | ⟨more, ha, hd⟩
  · cases more with
    | nil =>
      obtain ⟨hx, hb⟩ := List.cons.inj hb
      exact .inl ⟨by simpa using hc.symm, hx, hb⟩
    | cons z more =>
      obtain ⟨rfl, hrest⟩ := List.cons.inj hb
      exact .inr (.inl ⟨more, hc, hrest⟩)
  · cases more with
    | nil =>
      obtain ⟨hx, hd⟩ := List.cons.inj hd
      exact .inl ⟨by simpa using ha, hx.symm, hd.symm⟩
    | cons z more =>
      obtain ⟨rfl, hrest⟩ := List.cons.inj hd
      exact .inr (.inr ⟨more, ha, hrest⟩)

/-- A run is taken up to the first element that does not belong to it. -/
theorem takeWhile_append_of_head {p : α → Bool} {front back : List α}
    (hfront : ∀ a ∈ front, p a = true) (hback : ∀ a ∈ back.head?, p a = false) :
    (front ++ back).takeWhile p = front := by
  rw [List.takeWhile_append_of_pos hfront]
  cases back with
  | nil => simp
  | cons a back => simp [hback a rfl]

/-- A run is dropped up to the first element that does not belong to it. -/
theorem dropWhile_append_of_head {p : α → Bool} {front back : List α}
    (hfront : ∀ a ∈ front, p a = true) (hback : ∀ a ∈ back.head?, p a = false) :
    (front ++ back).dropWhile p = back := by
  rw [List.dropWhile_append_of_pos hfront]
  cases back with
  | nil => rfl
  | cons a back => simp [hback a rfl]

/-- Nothing is dropped of a list in which the element to drop is missing. -/
theorem dropWhile_of_not_mem [BEq α] [LawfulBEq α] {list : List α} {a : α} (h : a ∉ list) :
    list.dropWhile (· == a) = list := by
  refine @dropWhile_append_of_head α (· == a) [] list nofun fun b hb => ?_
  rw [beq_eq_false_iff_ne]
  rintro rfl
  exact h (List.mem_of_mem_head? hb)

/-- If every part of a list is as much longer than another one as a third one is long, so is the
whole list. -/
theorem length_flatMap_add {α β γ : Type} {whole rest : α → List β} {added : α → List γ}
    {values : List α} (h : ∀ value ∈ values,
      (whole value).length = (rest value).length + (added value).length) :
    (values.flatMap whole).length =
      (values.flatMap rest).length + (values.flatMap added).length := by
  induction values with
  | nil => rfl
  | cons value values ih =>
    obtain ⟨hfirst, hrest⟩ := List.forall_mem_cons.mp h
    simp only [List.flatMap_cons, List.length_append, hfirst, ih hrest]
    omega

/-- Two checks in a row end with a value exactly if both do. -/
theorem bind_eq_ok_iff {check : Except ε α} {next : α → Except ε β} {value : β} :
    check >>= next = .ok value ↔ ∃ a, check = .ok a ∧ next a = .ok value := by
  cases check with
  | error e => simp [Bind.bind, Except.bind]
  | ok a => simp [Bind.bind, Except.bind]

/-- Two checks in a row end with an error exactly if the first one does, or the second one behind
it. -/
theorem bind_eq_error_iff {check : Except ε α} {next : α → Except ε β} {error : ε} :
    check >>= next = .error error ↔
      check = .error error ∨ ∃ a, check = .ok a ∧ next a = .error error := by
  cases check with
  | error e => simp [Bind.bind, Except.bind]
  | ok a => simp [Bind.bind, Except.bind]

/-- A function is applied to the value that a check ends with. -/
theorem map_eq_ok_iff {check : Except ε α} {f : α → β} {value : β} :
    check.map f = .ok value ↔ ∃ a, check = .ok a ∧ f a = value := by
  cases check <;> simp [Except.map]

/-- A function is applied behind two checks in a row. -/
theorem map_bind_eq (check : Except ε α) (next : α → Except ε β) (f : β → τ) :
    (check >>= next).map f = check >>= fun a => (next a).map f := by
  cases check <;> rfl

/-- The next check is given the value to which a function was applied. -/
theorem bind_map_eq (check : Except ε α) (f : α → β) (next : β → Except ε τ) :
    check.map f >>= next = check >>= fun a => next (f a) := by
  cases check <;> rfl

/-- What follows a check matters only for the value that the check ends with. -/
theorem bind_congr_of_ok {check : Except ε α} {next other : α → Except ε β}
    (h : ∀ a, check = .ok a → next a = other a) : check >>= next = check >>= other := by
  cases check with
  | error error => rfl
  | ok a => exact h a rfl

/-- Another error leaves the values of a check as they are. -/
theorem mapError_eq_ok_iff {ε' : Type} {check : Except ε α} {f : ε → ε'} {value : α} :
    check.mapError f = .ok value ↔ check = .ok value := by
  cases check with
  | error e => exact ⟨nofun, nofun⟩
  | ok a =>
    constructor
    · rintro ⟨⟩
      rfl
    · rintro ⟨⟩
      rfl

/-- Another error takes the place of the one that a check ends with. -/
theorem mapError_eq_error_iff {ε' : Type} {check : Except ε α} {f : ε → ε'} {error : ε'} :
    check.mapError f = .error error ↔ ∃ e, check = .error e ∧ f e = error := by
  cases check with
  | error e =>
    constructor
    · rintro ⟨⟩
      exact ⟨e, rfl, rfl⟩
    · rintro ⟨-, ⟨⟩, rfl⟩
      rfl
  | ok a =>
    refine ⟨nofun, ?_⟩
    rintro ⟨_, ⟨⟩, _⟩

/-- A check without its error is a value exactly if it ends with it. -/
theorem toOption_eq_some_iff {check : Except ε α} {value : α} :
    check.toOption = some value ↔ check = .ok value := by
  cases check <;> simp [Except.toOption]

/-- The values of a list of checks are what the single checks end with, in order. -/
theorem eq_filterMap_of_mapM {check : α → Except ε β} {inputs : List α} {values : List β}
    (h : inputs.mapM check = .ok values) :
    values = inputs.filterMap fun input => (check input).toOption := by
  induction inputs generalizing values with
  | nil =>
    cases h
    rfl
  | cons input inputs ih =>
    rw [List.mapM_cons] at h
    obtain ⟨value, hvalue, h⟩ := bind_eq_ok_iff.mp h
    obtain ⟨rest, hrest, h⟩ := bind_eq_ok_iff.mp h
    cases h
    rw [List.filterMap_cons, hvalue, ← ih hrest]
    rfl

/-- Every value of a list of checks is the value of one of them. -/
theorem exists_of_mem_mapM {check : α → Except ε β} {inputs : List α} {values : List β}
    (h : inputs.mapM check = .ok values) {value : β} (hmem : value ∈ values) :
    ∃ input ∈ inputs, check input = .ok value := by
  rw [eq_filterMap_of_mapM h, List.mem_filterMap] at hmem
  obtain ⟨input, hinput, hvalue⟩ := hmem
  exact ⟨input, hinput, toOption_eq_some_iff.mp hvalue⟩

/-- The values of a list of checks stand in the order of what was checked. -/
theorem forall₂_of_mapM {check : α → Except ε β} {inputs : List α} {values : List β}
    (h : inputs.mapM check = .ok values) :
    List.Forall₂ (fun input value => check input = .ok value) inputs values := by
  induction inputs generalizing values with
  | nil =>
    cases h
    exact .nil
  | cons input inputs ih =>
    rw [List.mapM_cons] at h
    obtain ⟨first, hfirst, h⟩ := bind_eq_ok_iff.mp h
    obtain ⟨rest, hrest, h⟩ := bind_eq_ok_iff.mp h
    cases h
    exact .cons hfirst (ih hrest)

/-- Each of a list of checks that ends with values ends with one of them. -/
theorem exists_mem_of_mapM {check : α → Except ε β} {inputs : List α} {values : List β}
    (h : inputs.mapM check = .ok values) {input : α} (hmem : input ∈ inputs) :
    ∃ value ∈ values, check input = .ok value := by
  have hall := forall₂_of_mapM h
  clear h
  induction hall with
  | nil => cases hmem
  | @cons first value inputs values hfirst _ ih =>
    rcases List.mem_cons.mp hmem with rfl | hmem
    · exact ⟨value, List.mem_cons_self, hfirst⟩
    · obtain ⟨other, hother, hvalue⟩ := ih hmem
      exact ⟨other, List.mem_cons_of_mem value hother, hvalue⟩

/-- Each of a list of checks that ends with values ends with one. -/
theorem exists_ok_of_mapM {check : α → Except ε β} {inputs : List α} {values : List β}
    (h : inputs.mapM check = .ok values) {input : α} (hmem : input ∈ inputs) :
    ∃ value, check input = .ok value := by
  obtain ⟨value, -, hvalue⟩ := exists_mem_of_mapM h hmem
  exact ⟨value, hvalue⟩

/-- The error of a list of checks is the error of one of them. -/
theorem exists_error_of_mapM {check : α → Except ε β} {inputs : List α} {error : ε}
    (h : inputs.mapM check = .error error) : ∃ input ∈ inputs, check input = .error error := by
  induction inputs with
  | nil => cases h
  | cons first inputs ih =>
    rw [List.mapM_cons] at h
    rcases bind_eq_error_iff.mp h with hfirst | ⟨value, -, h⟩
    · exact ⟨first, by simp, hfirst⟩
    · rcases bind_eq_error_iff.mp h with hrest | ⟨rest, -, h⟩
      · obtain ⟨input, hinput, herror⟩ := ih hrest
        exact ⟨input, by simp [hinput], herror⟩
      · cases h

/-- If each of a list of checks ends with the image of what another one ends with, the list ends
with the images. -/
theorem mapM_eq_map {check other : α → Except ε β} {f : β → β} (inputs : List α)
    (h : ∀ input, check input = (other input).map f) :
    inputs.mapM check = (inputs.mapM other).map (List.map f) := by
  induction inputs with
  | nil => rfl
  | cons input inputs ih =>
    rw [List.mapM_cons, List.mapM_cons, h, ih]
    cases other input with
    | error error => rfl
    | ok value => cases inputs.mapM other <;> rfl

/-- If each step of a run adds what it reads to a view of the state, or leaves the view as it is,
the run adds all that was read, in order. -/
theorem exists_foldl_of_foldlM {step : σ → α → Except ε σ} (view : σ → τ) (add : τ → β → τ)
    {reads : α → Bool} {read : α → Except ε β} {start final : σ} {inputs : List α}
    (hrun : inputs.foldlM step start = .ok final)
    (hstep : ∀ {state next : σ} {input : α}, step state input = .ok next →
      if reads input then ∃ value, read input = .ok value ∧ view next = add (view state) value
      else view next = view state) :
    ∃ values, (inputs.filter reads).mapM read = .ok values ∧
      view final = values.foldl add (view start) := by
  induction inputs generalizing start with
  | nil =>
    cases hrun
    exact ⟨[], rfl, rfl⟩
  | cons input inputs ih =>
    rw [List.foldlM_cons] at hrun
    obtain ⟨next, hnext, hrun⟩ := bind_eq_ok_iff.mp hrun
    obtain ⟨values, hvalues, hview⟩ := ih hrun
    have hfirst := hstep hnext
    by_cases hreads : reads input = true
    · rw [if_pos hreads] at hfirst
      obtain ⟨value, hvalue, hadd⟩ := hfirst
      refine ⟨value :: values, ?_, by rw [hview, hadd, List.foldl_cons]⟩
      rw [List.filter_cons_of_pos hreads, List.mapM_cons, hvalue, hvalues]
      rfl
    · rw [if_neg hreads] at hfirst
      exact ⟨values, by rw [List.filter_cons_of_neg hreads, hvalues], by rw [hview, hfirst]⟩

/-- Two runs that read the same end with the same view of the state. -/
theorem view_eq_of_foldlM {step : σ → α → Except ε σ} (view : σ → τ) (add : τ → β → τ)
    {reads : α → Bool} {read : α → Except ε β} {start first second : σ} {as bs : List α}
    (hsame : as.filter reads = bs.filter reads) (has : as.foldlM step start = .ok first)
    (hbs : bs.foldlM step start = .ok second)
    (hstep : ∀ {state next : σ} {input : α}, step state input = .ok next →
      if reads input then ∃ value, read input = .ok value ∧ view next = add (view state) value
      else view next = view state) :
    view first = view second := by
  obtain ⟨values, hvalues, hfirst⟩ := exists_foldl_of_foldlM view add has hstep
  obtain ⟨others, hothers, hsecond⟩ := exists_foldl_of_foldlM view add hbs hstep
  rw [hsame] at hvalues
  cases hvalues.symm.trans hothers
  rw [hfirst, hsecond]

/-- If every step leads from the view of a state to the view of the next one, a run leads from the
view of the first state to that of the last. -/
theorem foldlM_map_view {step : σ → α → Except ε σ} {viewed : τ → β → Except ε τ} {view : σ → τ}
    {f : α → β} {inputs : List α}
    (hstep : ∀ state, ∀ input ∈ inputs,
      viewed (view state) (f input) = (step state input).map view) (start : σ) :
    (inputs.map f).foldlM viewed (view start) = (inputs.foldlM step start).map view := by
  induction inputs generalizing start with
  | nil => rfl
  | cons input inputs ih =>
    obtain ⟨hfirst, hrest⟩ := forall_and.mp fun state => List.forall_mem_cons.mp (hstep state)
    rw [List.map_cons, List.foldlM_cons, List.foldlM_cons, hfirst]
    cases step start input with
    | error error => rfl
    | ok next => exact ih hrest next

/-- If the state decides nothing about whether a step ends with a value, a run does exactly if the
step of each of its inputs does. -/
theorem exists_foldlM_iff {step : σ → α → Except ε σ} {passes : α → Prop} {start : σ}
    {inputs : List α}
    (hstep : ∀ state input, (∃ next, step state input = .ok next) ↔ passes input) :
    (∃ final, inputs.foldlM step start = .ok final) ↔ ∀ input ∈ inputs, passes input := by
  induction inputs generalizing start with
  | nil => exact ⟨fun _ => nofun, fun _ => ⟨start, rfl⟩⟩
  | cons input inputs ih =>
    rw [List.forall_mem_cons, ← hstep start input]
    simp only [List.foldlM_cons, bind_eq_ok_iff]
    constructor
    · rintro ⟨final, next, hnext, hrun⟩
      exact ⟨⟨next, hnext⟩, ih.mp ⟨final, hrun⟩⟩
    · rintro ⟨⟨next, hnext⟩, hall⟩
      obtain ⟨final, hrun⟩ := ih.mpr hall
      exact ⟨final, next, hnext, hrun⟩

/-- If the state decides nothing about whether a step ends with a value, neither does the order of
the inputs about whether a run does. -/
theorem exists_foldlM_of_perm {step : σ → α → Except ε σ} {passes : α → Prop} {start final : σ}
    {as bs : List α} (hstep : ∀ state input, (∃ next, step state input = .ok next) ↔ passes input)
    (hperm : as.Perm bs) (h : as.foldlM step start = .ok final) :
    ∃ other, bs.foldlM step start = .ok other :=
  (exists_foldlM_iff hstep).mpr fun input hinput =>
    (exists_foldlM_iff hstep).mp ⟨final, h⟩ input (hperm.mem_iff.mpr hinput)

end NifBindings
