import Lane.Proofs.Typing.Valid

set_option relaxedAutoImplicit false
set_option autoImplicit false

/-!
# Declarations keep programs well formed

Classes, member variables, member functions and foreign functions are added to a program one at a
time. Each addition leaves a well-formed program well formed, and forgets no function.

## Main results

* `Lane.Program.WellFormed.addClass`, `Lane.Program.WellFormed.addForeign`: new classes and foreign
  functions.
* `Lane.Program.ValidClass.addVar`, `Lane.Program.ValidClass.addFunc`: new members of a class.
* `Lane.Program.WellFormed.update`: a changed class in the place of the class it was.
* `Lane.Program.Numbered.addFunc`: functions are told apart by their numbers, errors or not.
-/

namespace Lane

/-! ## Members of classes -/

namespace Class

variable {c d : Class} {v : MemberVar} {f : MemberFunction}

/-- A variable is added to the variables. -/
@[simp] lemma vars_append_var :
    Class.vars { c with members := c.members ++ [.var v] } = c.vars ++ [v] := by
  simp [vars]

/-- A variable is none of the functions. -/
@[simp] lemma funcs_append_var :
    Class.funcs { c with members := c.members ++ [.var v] } = c.funcs := by
  simp [funcs]

/-- A function is none of the variables. -/
@[simp] lemma vars_append_func :
    Class.vars { c with members := c.members ++ [.func f] } = c.vars := by
  simp [vars]

/-- A function is added to the functions. -/
@[simp] lemma funcs_append_func :
    Class.funcs { c with members := c.members ++ [.func f] } = c.funcs ++ [f] := by
  simp [funcs]

/-- A variable that could be declared has a new name. -/
lemma of_addVar_eq_ok {name : String} {pos : Position} {t : Ty}
    (h : c.addVar name pos t = .ok (d, v)) :
    name ∉ c.vars.map MemberVar.name ∧ v = ⟨c.ref, c.vars.length, name, pos, t⟩ ∧
      d = { c with members := c.members ++ [.var v] } := by
  unfold addVar at h
  split at h
  · cases h
  · rename_i hv
    obtain ⟨rfl, rfl⟩ := Prod.mk.inj (Except.ok.inj h)
    refine ⟨?_, rfl, rfl⟩
    simpa [var?] using hv

/-- A function that could be declared takes the next place in its class. -/
lemma of_addFunc_eq_ok {g : MemberFunction} (h : c.addFunc f = .ok (d, g)) :
    g = { f with cls := c.ref, index := c.funcs.length } ∧
      d = { c with members := c.members ++ [.func g] } := by
  unfold addFunc at h
  split at h
  · cases h
  · obtain ⟨rfl, rfl⟩ := Prod.mk.inj (Except.ok.inj h)
    exact ⟨rfl, rfl⟩

end Class

namespace Program

variable {p q : Program} {c d : Class} {f : MemberFunction}

/-! ## Validity in larger programs -/

/-- Types stay valid when classes are added. -/
lemma Valid.mono {t : Ty} (ht : p.Valid t)
    (h : ∀ r ∈ p.classes.map Class.ref, r ∈ q.classes.map Class.ref) : q.Valid t := by
  induction t with
  | scalar => trivial
  | error => exact ht
  | ptr _ _ ih => exact ih ht
  | container _ _ _ ih => exact ih ht
  | cls _ c => simpa [Valid] using h c (by simpa [Valid] using ht)

/-- A function stays valid in a program with more classes. -/
lemma ValidFunc.mono (hf : p.ValidFunc f)
    (h : ∀ r ∈ p.classes.map Class.ref, r ∈ q.classes.map Class.ref) : q.ValidFunc f :=
  { hf with
    params_valid := fun a ha => (hf.params_valid a ha).imp_left fun ht => ht.mono h
    results_valid := fun a ha => (hf.results_valid a ha).imp_left fun ht => ht.mono h }

/-- A class stays valid in a program with more classes. -/
lemma ValidClass.mono (hc : p.ValidClass c)
    (h : ∀ r ∈ p.classes.map Class.ref, r ∈ q.classes.map Class.ref) : q.ValidClass c :=
  { hc with
    vars_own := fun v hv => (hc.vars_own v hv).imp_right fun ht => ht.mono h
    funcs_own := fun f hf => (hc.funcs_own f hf).imp_right fun ht => ht.mono h }

/-- A foreign function stays valid in a program with more classes. -/
lemma ValidForeign.mono {f : Foreign} (hf : p.ValidForeign f)
    (h : ∀ r ∈ p.classes.map Class.ref, r ∈ q.classes.map Class.ref) : q.ValidForeign f where
  params_valid a ha := (hf.params_valid a ha).imp_left fun ht => ht.mono h
  results_valid a ha := (hf.results_valid a ha).imp_left fun ht => ht.mono h

/-! ## Additions -/

/-- A class stays valid with a new variable. -/
lemma ValidClass.addVar {v : MemberVar} (hc : p.ValidClass c) (hv : v.cls = c.ref)
    (ht : p.Valid v.type) (hn : v.name ∉ c.vars.map MemberVar.name) :
    p.ValidClass { c with members := c.members ++ [.var v] } where
  vars_own w hw := by
    rw [Class.vars_append_var, List.mem_append, List.mem_singleton] at hw
    obtain hw | rfl := hw
    · exact hc.vars_own w hw
    · exact ⟨hv, ht⟩
  var_names := by
    rw [Class.vars_append_var, List.map_append, List.nodup_append']
    exact ⟨hc.var_names, by simp, by simpa using hn⟩
  funcs_own := by simpa using hc.funcs_own
  func_index := by simpa using hc.func_index

/-- A class stays valid with a new function. -/
lemma ValidClass.addFunc (hc : p.ValidClass c) (hcls : f.cls = c.ref)
    (hi : f.index = c.funcs.length) (hf : p.ValidFunc f) :
    p.ValidClass { c with members := c.members ++ [.func f] } where
  vars_own := by simpa using hc.vars_own
  var_names := by simpa using hc.var_names
  funcs_own g hg := by
    rw [Class.funcs_append_func, List.mem_append, List.mem_singleton] at hg
    obtain hg | rfl := hg
    · exact hc.funcs_own g hg
    · exact ⟨hcls, hf⟩
  func_index i g hg := by
    rw [Class.funcs_append_func, List.getElem?_append] at hg
    split at hg
    · exact hc.func_index i g hg
    · rename_i hlt
      cases h0 : i - c.funcs.length with
      | zero =>
        obtain rfl : f = g := by simpa [h0] using hg
        omega
      | succ n => simp [h0] at hg

/-- A changed class is found by its number. -/
lemma classOf_update {r : ClassRef} (hc : ∃ c ∈ p.classes, c.ref.id = r.id)
    (hd : d.ref.id = r.id) : (p.update d).classOf r = d := by
  obtain ⟨e, he, hid, heq⟩ | ⟨hnone, -⟩ := (p.update d).classOf_mem_or r
  · obtain ⟨k, -, rfl⟩ := List.mem_map.1 he
    rw [heq]
    split
    · rfl
    · rename_i hne
      rw [if_neg hne] at hid
      exact absurd (beq_iff_eq.2 (hid.trans hd.symm)) hne
  · obtain ⟨k, hk, hid⟩ := hc
    exact absurd hd (hnone d (List.mem_map.2 ⟨k, hk, by simp [hid, hd]⟩))

section Update

variable (hc : c ∈ p.classes) (hd : d.ref = c.ref)
include hc hd

/-- A changed class takes the place of the class it was, and of no other. -/
lemma Numbered.mem_update (hp : p.Numbered) {e : Class} :
    e ∈ (p.update d).classes ↔ e = d ∨ e ∈ p.classes ∧ e ≠ c := by
  have hid : ∀ e ∈ p.classes, e.ref.id = d.ref.id ↔ e = c := by
    intro e he
    rw [hd]
    exact ⟨fun h => List.inj_on_of_nodup_map hp.ids_nodup he hc h, fun h => h ▸ rfl⟩
  simp only [update, List.mem_map, beq_iff_eq]
  constructor
  · rintro ⟨a, ha, rfl⟩
    split
    · exact .inl rfl
    · exact .inr ⟨ha, fun h => ‹¬_› ((hid a ha).2 h)⟩
  · rintro (rfl | ⟨he, hne⟩)
    · exact ⟨c, hc, if_pos (by rw [hd])⟩
    · exact ⟨e, he, if_neg fun h => hne ((hid e he).1 h)⟩

/-- The names of the classes stay. -/
lemma Numbered.refs_update (hp : p.Numbered) :
    (p.update d).classes.map Class.ref = p.classes.map Class.ref := by
  rw [update, List.map_map]
  refine List.map_congr_left fun e he => ?_
  simp only [Function.comp_apply, beq_iff_eq]
  split
  · rename_i h
    rw [hd] at h ⊢
    rw [List.inj_on_of_nodup_map hp.ids_nodup he hc h]
  · rfl

/-- A class whose functions know their places may take the place of the class it was. -/
lemma Numbered.update (hp : p.Numbered) (hf : ∀ (i : Nat) (f : MemberFunction),
    d.funcs[i]? = some f → f.cls = d.ref ∧ f.index = i) : (p.update d).Numbered where
  ids_nodup := by
    have := congrArg (List.map ClassRef.id) (hp.refs_update hc hd)
    simp only [List.map_map, Function.comp_def] at this
    exact this ▸ hp.ids_nodup
  funcs_at e he := by
    obtain rfl | ⟨he, -⟩ := (hp.mem_update hc hd).1 he
    · exact hf
    · exact hp.funcs_at e he

/-- The functions of the changed class, and those of the other classes. -/
lemma Numbered.declares_update_iff (hp : p.Numbered) :
    (p.update d).Declares f ↔ f ∈ d.funcs ∨ ∃ e ∈ p.classes, e ≠ c ∧ f ∈ e.funcs := by
  constructor
  · rintro ⟨e, he, hm⟩
    obtain rfl | ⟨he, hne⟩ := (hp.mem_update hc hd).1 he
    · exact .inl hm
    · exact .inr ⟨e, he, hne, hm⟩
  · rintro (hm | ⟨e, he, hne, hm⟩)
    · exact ⟨d, (hp.mem_update hc hd).2 (.inl rfl), hm⟩
    · exact ⟨e, (hp.mem_update hc hd).2 (.inr ⟨he, hne⟩), hm⟩

section WellFormed

variable (hp : p.WellFormed)
include hp

/-- The classes after one was replaced. -/
lemma WellFormed.mem_update {e : Class} :
    e ∈ (p.update d).classes ↔ e = d ∨ e ∈ p.classes ∧ e ≠ c :=
  hp.numbered.mem_update hc hd

/-- Replacing a class does not change what classes there are. -/
lemma WellFormed.refs_update : (p.update d).classes.map Class.ref = p.classes.map Class.ref :=
  hp.numbered.refs_update hc hd

/-- A well-formed class in the place of the class it was leaves the program well formed. -/
lemma WellFormed.update (hv : p.ValidClass d) : (p.update d).WellFormed := by
  have hrefs := hp.refs_update hc hd
  have hmono : ∀ r ∈ p.classes.map Class.ref, r ∈ (p.update d).classes.map Class.ref :=
    fun r hr => hrefs ▸ hr
  refine ⟨?_, ?_, fun e he => ?_, hp.foreign_names, fun f hf => (hp.foreigns_valid f hf).mono hmono⟩
  · exact (hp.numbered.update hc hd fun i f hf =>
      ⟨(hv.funcs_own f (List.mem_of_getElem? hf)).1, hv.func_index i f hf⟩).ids_nodup
  · have := congrArg (List.map ClassRef.name) hrefs
    simp only [List.map_map, Function.comp_def] at this
    exact this ▸ hp.names_nodup
  · obtain rfl | ⟨he, -⟩ := (hp.mem_update hc hd).1 he
    · exact hv.mono hmono
    · exact (hp.classes_valid e he).mono hmono

/-- No function is forgotten when a class keeps its functions. -/
lemma WellFormed.declares_update (hsub : c.funcs ⊆ d.funcs) (hf : p.Declares f) :
    (p.update d).Declares f := by
  obtain ⟨e, he, hm⟩ := hf
  refine (hp.numbered.declares_update_iff hc hd).2 ?_
  by_cases h : e = c
  · exact .inl (hsub (h ▸ hm))
  · exact .inr ⟨e, he, h, hm⟩

end WellFormed

end Update

/-- A foreign function that could be declared changes no class. -/
lemma of_addForeign_eq_ok {f : Foreign} (h : p.addForeign f = .ok q) :
    q.classes = p.classes ∧ q.foreigns = p.foreigns ++ [f] := by
  unfold Program.addForeign at h
  split at h
  · cases h
  · obtain rfl := Except.ok.inj h
    exact ⟨rfl, rfl⟩

/-! ## Numbers -/

/-- A class with a new number and no members. -/
lemma Numbered.addClass {r : ClassRef} {pos : Position} (hp : p.Numbered)
    (h : p.addClass ⟨r, pos, []⟩ = .ok q) (hid : ∀ c ∈ p.classes, c.ref.id ≠ r.id) :
    q.Numbered ∧ q.classes.map Class.ref = p.classes.map Class.ref ++ [r] ∧
      ∀ x, q.Declares x ↔ p.Declares x := by
  unfold Program.addClass at h
  split at h
  · cases h
  obtain rfl := Except.ok.inj h
  refine ⟨⟨?_, fun k hk => ?_⟩, by simp, fun x => ?_⟩
  · rw [List.map_append, List.nodup_append']
    exact ⟨hp.ids_nodup, by simp, by simpa using hid⟩
  · obtain hk | hk := List.mem_append.1 hk
    · exact hp.funcs_at k hk
    · obtain rfl := List.mem_singleton.1 hk
      simp [Class.funcs]
  · simp [Declares, Class.funcs, or_and_right, exists_or]

section Members

variable (hp : p.Numbered) (hc : c ∈ p.classes)
include hp hc

/-- A class with one more variable has the functions that it had. -/
lemma Numbered.addVar {name : String} {pos : Position} {t : Ty} {v : MemberVar}
    (h : c.addVar name pos t = .ok (d, v)) :
    (p.update d).Numbered ∧ (p.update d).classes.map Class.ref = p.classes.map Class.ref ∧
      ∀ x, (p.update d).Declares x ↔ p.Declares x := by
  obtain ⟨-, -, rfl⟩ := Class.of_addVar_eq_ok h
  refine ⟨hp.update hc rfl (by simpa using hp.funcs_at c hc), hp.refs_update hc rfl, fun x => ?_⟩
  rw [hp.declares_update_iff hc (d := { c with members := c.members ++ [.var v] }) rfl,
    Class.funcs_append_var]
  constructor
  · rintro (hx | ⟨e, he, -, hx⟩)
    exacts [⟨c, hc, hx⟩, ⟨e, he, hx⟩]
  · rintro ⟨e, he, hx⟩
    by_cases hec : e = c
    · exact .inl (hec ▸ hx)
    · exact .inr ⟨e, he, hec, hx⟩

/-- A class with one more function, which takes the next place in it. -/
lemma Numbered.addFunc {g : MemberFunction} (h : c.addFunc f = .ok (d, g)) :
    (p.update d).Numbered ∧ (p.update d).classes.map Class.ref = p.classes.map Class.ref ∧
      ∀ x, (p.update d).Declares x ↔ p.Declares x ∨ x = g := by
  obtain ⟨hg, rfl⟩ := Class.of_addFunc_eq_ok h
  refine ⟨hp.update hc rfl fun i x hx => ?_, hp.refs_update hc rfl, fun x => ?_⟩
  · rw [Class.funcs_append_func, List.getElem?_append] at hx
    split at hx
    · exact hp.funcs_at c hc i x hx
    · cases h0 : i - c.funcs.length with
      | zero =>
        obtain rfl : g = x := by simpa [h0] using hx
        exact ⟨by rw [hg], by rw [hg]; show c.funcs.length = i; omega⟩
      | succ n => simp [h0] at hx
  · rw [hp.declares_update_iff hc (d := { c with members := c.members ++ [.func g] }) rfl,
      Class.funcs_append_func, List.mem_append, List.mem_singleton]
    constructor
    · rintro ((hx | hx) | ⟨e, he, -, hx⟩)
      exacts [.inl ⟨c, hc, hx⟩, .inr hx, .inl ⟨e, he, hx⟩]
    · rintro (⟨e, he, hx⟩ | hx)
      · by_cases hec : e = c
        · exact .inl (.inl (hec ▸ hx))
        · exact .inr ⟨e, he, hec, hx⟩
      · exact .inl (.inr hx)

/-- A function that is added to a class was declared nowhere. -/
lemma Numbered.not_declares_addFunc {g : MemberFunction} (h : c.addFunc f = .ok (d, g)) :
    ¬ p.Declares g := by
  obtain ⟨hg, -⟩ := Class.of_addFunc_eq_ok h
  rintro ⟨k, hk, hmem⟩
  obtain ⟨i, hi⟩ := List.mem_iff_getElem?.1 hmem
  obtain ⟨hcls, hindex⟩ := hp.funcs_at k hk i g hi
  have hkc : k = c := List.inj_on_of_nodup_map hp.ids_nodup hk hc
    (congrArg ClassRef.id (show k.ref = c.ref by rw [← hcls, hg]))
  have hlt : i < k.funcs.length := (List.getElem?_eq_some_iff.1 hi).1
  rw [hg] at hindex
  have hlength : c.funcs.length = i := hindex
  subst hkc
  omega

end Members

/-! ## Well-formed programs -/

/-- A class with a new name, a new number and no members. -/
lemma WellFormed.addClass {r : ClassRef} {pos : Position} (hp : p.WellFormed)
    (h : p.addClass ⟨r, pos, []⟩ = .ok q) (hid : ∀ c ∈ p.classes, c.ref.id ≠ r.id) :
    q.WellFormed ∧ q.classes = p.classes ++ [⟨r, pos, []⟩] ∧ q.foreigns = p.foreigns := by
  unfold Program.addClass at h
  split at h
  · cases h
  rename_i hn
  obtain rfl := Except.ok.inj h
  have hmono : ∀ r' ∈ p.classes.map Class.ref,
      r' ∈ (p.classes ++ [(⟨r, pos, []⟩ : Class)]).map Class.ref := by
    intro r' hr'
    rw [List.map_append]
    exact List.mem_append_left _ hr'
  refine ⟨⟨?_, ?_, fun c hc => ?_, hp.foreign_names,
    fun f hf => (hp.foreigns_valid f hf).mono hmono⟩, rfl, rfl⟩
  · rw [List.map_append, List.nodup_append']
    exact ⟨hp.ids_nodup, by simp, by simpa using hid⟩
  · rw [List.map_append, List.nodup_append']
    exact ⟨hp.names_nodup, by simp, by simpa [class?, Class.name] using hn⟩
  · obtain hc | hc := List.mem_append.1 hc
    · exact (hp.classes_valid c hc).mono hmono
    · obtain rfl := List.mem_singleton.1 hc
      exact ⟨by simp [Class.vars], by simp [Class.vars], by simp [Class.funcs],
        by simp [Class.funcs]⟩

/-- A foreign function with a new name. -/
lemma WellFormed.addForeign {f : Foreign} (hp : p.WellFormed) (h : p.addForeign f = .ok q)
    (hf : p.ValidForeign f) :
    q.WellFormed ∧ q.classes = p.classes ∧ q.foreigns = p.foreigns ++ [f] := by
  unfold Program.addForeign at h
  split at h
  · cases h
  rename_i hn
  obtain rfl := Except.ok.inj h
  have hmono : ∀ r ∈ p.classes.map Class.ref, r ∈ p.classes.map Class.ref := fun _ => id
  refine ⟨⟨hp.ids_nodup, hp.names_nodup, fun c hc => (hp.classes_valid c hc).mono hmono, ?_,
    fun g hg => ?_⟩, rfl, rfl⟩
  · rw [List.map_append, List.nodup_append']
    exact ⟨hp.foreign_names, by simp, by simpa [foreign?] using hn⟩
  · obtain hg | hg := List.mem_append.1 hg
    · exact (hp.foreigns_valid g hg).mono hmono
    · obtain rfl := List.mem_singleton.1 hg
      exact hf.mono hmono

end Program

end Lane
