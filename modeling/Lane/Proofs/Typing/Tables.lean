import Lane.Proofs.Typing.Overloads
import Mathlib.Data.List.AList
import Mathlib.Data.String.Basic

set_option relaxedAutoImplicit false
set_option autoImplicit false

/-!
# Tables of members

The members of a class may be kept in several tables, each of which is filled when a member is
declared: all members, the variables and the functions in the order of their declaration, and the
variables and the overloads by their names. All of them describe one and the same class. A
declaration that conflicts with a member is rejected: it gives the first such member and changes no
table.

## Main definitions

* `Lane.Member.conflicts`: members beside which a declaration is rejected.
* `Lane.Class.conflict?`, `Lane.Class.outcome`: the first of them, and what a declaration gives.
* `Lane.Tables`, `Lane.Tables.declare`, `Lane.Tables.fill`: tables, filled by declarations.
* `Lane.Tables.Describes`, `Lane.Tables.IsConsistent`: tables that are those of a class, and tables
  that go together.
* `Lane.Tables.Settles`: a declaration does the same to a class and to its tables.

## Main results

* `Lane.Class.declare_rejected`, `Lane.Class.declare_accepted`: what a declaration does.
* `Lane.Tables.Describes.declare`, `Lane.Tables.describes_fill`: tables stay those of their class.
* `Lane.Tables.fill_isConsistent`: the tables go together after all declarations.
-/

namespace Lane

/-! ## Declarations -/

namespace Member

/-- The variable that a member is. -/
def var? : Member → Option MemberVar
  | .var v => some v
  | .func _ => none

/-- The function that a member is. -/
def func? : Member → Option MemberFunction
  | .func f => some f
  | .var _ => none

/-- **Conflicts**: a variable with the name of another one, and a function with the name, the kind
and the types of another one. Variables and functions may share their names. -/
def conflicts : Member → Declaration → Bool
  | .var v, .var name _ _ => v.name == name
  | .func f, .func g => f.name == g.name && f.kind == g.kind && f.sig.same g.sig
  | .var _, .func _ | .func _, .var _ _ _ => false

end Member

/-- The member that a class gets by a declaration. -/
def Declaration.member (c : Class) : Declaration → Member
  | .var name pos t => .var ⟨c.ref, c.vars.length, name, pos, t⟩
  | .func f => .func { f with cls := c.ref, index := c.funcs.length }

namespace Class

/-- **The outcome of a declaration**: the new member, or else the one that it conflicts with. -/
def outcome (c : Class) : Declaration → Except Member Member
  | .var name pos t => ((c.addVar name pos t).map fun q => .var q.2).mapError .var
  | .func f => ((c.addFunc f).map fun q => .func q.2).mapError .func

/-- **The first conflict** of a declaration with a member. -/
def conflict? (c : Class) (e : Declaration) : Option Member :=
  c.members.find? fun m => m.conflicts e

variable {c : Class} {e : Declaration} {m : Member}

/-- The variables of a class. -/
lemma vars_eq (c : Class) : c.vars = c.members.filterMap Member.var? := rfl

/-- The functions of a class. -/
lemma funcs_eq (c : Class) : c.funcs = c.members.filterMap Member.func? := rfl

/-- A variable conflicts with one of its name. -/
lemma conflict?_var (name : String) (pos : Position) (t : Ty) :
    c.conflict? (.var name pos t) = (c.var? name).map .var := by
  unfold conflict? var?
  rw [vars_eq]
  induction c.members with
  | nil => rfl
  | cons m ms ih =>
    cases m with
    | func f => exact ih
    | var v =>
      rw [List.filterMap_cons_some (show Member.var? (.var v) = some v from rfl), List.find?_cons,
        List.find?_cons, Member.conflicts]
      cases v.name == name
      · exact ih
      · rfl

/-- A function conflicts with one of its name, kind and signature. -/
lemma conflict?_func (f : MemberFunction) : c.conflict? (.func f) =
    (c.funcs.find? fun g => g.name == f.name && g.kind == f.kind && g.sig.same f.sig).map
      .func := by
  unfold conflict?
  rw [funcs_eq]
  induction c.members with
  | nil => rfl
  | cons m ms ih =>
    cases m with
    | var v => exact ih
    | func g =>
      rw [List.filterMap_cons_some (show Member.func? (.func g) = some g from rfl),
        List.find?_cons, List.find?_cons, Member.conflicts]
      cases g.name == f.name && g.kind == f.kind && g.sig.same f.sig
      · exact ih
      · rfl

/-- A declaration that conflicts with a member gives the first such member and changes nothing. -/
theorem declare_rejected (h : c.conflict? e = some m) :
    c.outcome e = .error m ∧ c.declare e = c := by
  cases e with
  | var name pos t =>
    rw [conflict?_var, Option.map_eq_some_iff] at h
    obtain ⟨v, hv, rfl⟩ := h
    simp [outcome, declare, addVar, hv, Except.map, Except.mapError]
  | func f =>
    rw [conflict?_func, Option.map_eq_some_iff] at h
    obtain ⟨g, hg, rfl⟩ := h
    simp [outcome, declare, addFunc, hg, Except.map, Except.mapError]

/-- A declaration that conflicts with no member adds its own at the end. -/
theorem declare_accepted (h : c.conflict? e = none) : c.outcome e = .ok (e.member c) ∧
    c.declare e = { c with members := c.members ++ [e.member c] } := by
  cases e with
  | var name pos t =>
    rw [conflict?_var, Option.map_eq_none_iff] at h
    simp [outcome, declare, addVar, h, Except.map, Except.mapError, Declaration.member]
  | func f =>
    rw [conflict?_func, Option.map_eq_none_iff] at h
    simp [outcome, declare, addFunc, h, Except.map, Except.mapError, Declaration.member]

/-- A declaration does not change the class it is made in. -/
lemma declare_ref (c : Class) (e : Declaration) : (c.declare e).ref = c.ref := by
  cases h : c.conflict? e with
  | some m => rw [(declare_rejected h).2]
  | none => rw [(declare_accepted h).2]

/-- The members that declarations add to a class, in the order of the declarations. -/
def added (c : Class) : List Declaration → List Member
  | [] => []
  | e :: es => (c.outcome e).toOption.toList ++ (c.declare e).added es

/-- **Run**: the members of a class are those that it had, and those that were added. -/
theorem members_populate (c : Class) (es : List Declaration) :
    (c.populate es).members = c.members ++ c.added es := by
  induction es generalizing c with
  | nil => simp [populate, added]
  | cons e es ih =>
    have hrun : c.populate (e :: es) = (c.declare e).populate es := rfl
    rw [hrun, ih, added]
    cases h : c.conflict? e with
    | some m =>
      obtain ⟨hout, hdecl⟩ := declare_rejected h
      rw [hout, hdecl]
      rfl
    | none =>
      obtain ⟨hout, hdecl⟩ := declare_accepted h
      rw [hout, hdecl]
      simp [Except.toOption]

/-- **Classes in order**: variables have names of their own and are numbered by their places, and no
two functions have the same name, kind and types. -/
structure IsInOrder (c : Class) : Prop where
  var_names : (c.vars.map MemberVar.name).Nodup
  var_index : ∀ (i : Nat) (v : MemberVar), c.vars[i]? = some v → v.index = i
  funcs_apart : c.funcs.Pairwise fun f g => ¬f.Clashes g

/-- **Step**: a declaration keeps a class in order. -/
lemma IsInOrder.declare (h : c.IsInOrder) (e : Declaration) : (c.declare e).IsInOrder := by
  cases hc : c.conflict? e with
  | some m =>
    rw [(declare_rejected hc).2]
    exact h
  | none =>
    rw [(declare_accepted hc).2]
    cases e with
    | var name pos t =>
      rw [conflict?_var, Option.map_eq_none_iff] at hc
      have hnew : name ∉ c.vars.map MemberVar.name := by simpa [var?] using hc
      refine ⟨?_, fun i v hv => ?_, ?_⟩
      · rw [Declaration.member, vars_append_var, List.map_append, List.nodup_append']
        exact ⟨h.var_names, by simp, by simpa using hnew⟩
      · rw [Declaration.member, vars_append_var, List.getElem?_append] at hv
        split at hv
        · exact h.var_index i v hv
        · rw [List.getElem?_singleton] at hv
          split at hv
          · obtain rfl := Option.some.inj hv
            dsimp only
            omega
          · cases hv
      · rw [Declaration.member, funcs_append_var]
        exact h.funcs_apart
    | func f =>
      rw [conflict?_func, Option.map_eq_none_iff] at hc
      refine ⟨?_, ?_, ?_⟩
      · rw [Declaration.member, vars_append_func]
        exact h.var_names
      · rw [Declaration.member, vars_append_func]
        exact h.var_index
      · rw [Declaration.member, funcs_append_func, List.pairwise_append]
        refine ⟨h.funcs_apart, List.pairwise_singleton _ _, fun g hg f' hf' hclash => ?_⟩
        obtain rfl := List.mem_singleton.1 hf'
        obtain ⟨hn, hk, hs⟩ := hclash
        have hfound := List.find?_eq_none.1 hc g hg
        simp_all

/-- **Run**: declarations keep a class in order. -/
lemma IsInOrder.populate (h : c.IsInOrder) (es : List Declaration) :
    (c.populate es).IsInOrder := by
  induction es generalizing c with
  | nil => exact h
  | cons e es ih => exact ih (h.declare e)

/-- Variables are found by their names. -/
lemma IsInOrder.var?_eq_some_iff (h : c.IsInOrder) {n : String} {v : MemberVar} :
    c.var? n = some v ↔ v ∈ c.vars ∧ v.name = n := by
  constructor
  · intro hv
    exact ⟨List.mem_of_find?_eq_some hv, by simpa using List.find?_some hv⟩
  · rintro ⟨hv, rfl⟩
    cases hw : c.var? v.name with
    | none => simpa using List.find?_eq_none.1 hw v hv
    | some w =>
      have hwv : w.name = v.name := by simpa using List.find?_some hw
      exact congrArg some
        (List.inj_on_of_nodup_map h.var_names (List.mem_of_find?_eq_some hw) hv hwv)

end Class

/-! ## Sorted names -/

section Names

/-- A list without repetitions. -/
lemma nodup_eraseDups {α : Type} [BEq α] [LawfulBEq α] : ∀ l : List α, l.eraseDups.Nodup
  | [] => by simp
  | a :: l => by
    rw [List.eraseDups_cons, List.nodup_cons, List.mem_eraseDups]
    exact ⟨by simp, nodup_eraseDups _⟩
termination_by l => l.length
decreasing_by exact Nat.lt_succ_of_le (List.length_filter_le _ _)

variable {ns ms : List String}

/-- A sorted list without repetitions increases. -/
lemma mergeSort_pairwise_lt (h : ns.Nodup) :
    (ns.mergeSort fun a b => decide (a ≤ b)).Pairwise (· < ·) := by
  have hsorted : (ns.mergeSort fun a b => decide (a ≤ b)).Pairwise fun a b =>
      decide (a ≤ b) = true := by
    refine List.pairwise_mergeSort (fun a b c => ?_) (fun a b => ?_) ns
    · simpa using le_trans
    · simpa using le_total a b
  have hnodup : (ns.mergeSort fun a b => decide (a ≤ b)).Nodup :=
    (List.mergeSort_perm ns _).nodup_iff.2 h
  exact (hsorted.and hnodup).imp fun hab => lt_of_le_of_ne (by simpa using hab.1) hab.2

/-- The same names are sorted in the same way. -/
lemma mergeSort_eq_of_mem_iff (hn : ns.Nodup) (hm : ms.Nodup) (h : ∀ n, n ∈ ns ↔ n ∈ ms) :
    (ns.mergeSort fun a b => decide (a ≤ b)) = ms.mergeSort fun a b => decide (a ≤ b) := by
  have hperm : (ns.mergeSort fun a b => decide (a ≤ b)).Perm
      (ms.mergeSort fun a b => decide (a ≤ b)) :=
    (List.mergeSort_perm ns _).trans
      (((List.perm_ext_iff_of_nodup hn hm).2 h).trans (List.mergeSort_perm ms _).symm)
  have hasymm : ∀ a b : String, a ∈ ns.mergeSort (fun a b => decide (a ≤ b)) →
      b ∈ ms.mergeSort (fun a b => decide (a ≤ b)) → a < b → b < a → a = b :=
    fun a b _ _ hab hba => absurd hba hab.asymm
  exact hperm.eq_of_pairwise hasymm (mergeSort_pairwise_lt hn) (mergeSort_pairwise_lt hm)

end Names

/-! ## Tables -/

/-- **Tables of members**: all members, the variables and the functions in the order of their
declaration, and the variables and the overloads by their names. -/
structure Tables where
  members : List Member := []
  vars : List MemberVar := []
  funcs : List MemberFunction := []
  varOf : AList fun _ : String => MemberVar := ∅
  overloadsOf : AList fun _ : String => List MemberFunction := ∅

namespace Tables

/-- The functions with a name. -/
def overloads (t : Tables) (name : String) : List MemberFunction :=
  (t.overloadsOf.lookup name).getD []

/-- The functions with a name, of the given kinds; all kinds count if none is given. -/
def lookup (t : Tables) (name : String) (kinds : List FuncKind) : List MemberFunction :=
  if kinds.isEmpty then t.overloads name
  else (t.overloads name).filter fun f => kinds.any fun k => f.kind == k

/-- The names of the functions in order. -/
def funcNames (t : Tables) : List String :=
  t.overloadsOf.keys.mergeSort fun a b => decide (a ≤ b)

/-- Put a variable into all tables. -/
def addVar (t : Tables) (v : MemberVar) : Tables :=
  { t with
    varOf := t.varOf.insert v.name v
    vars := t.vars ++ [v]
    members := t.members ++ [.var v] }

/-- Put a function into all tables. -/
def addFunc (t : Tables) (f : MemberFunction) : Tables :=
  { t with
    overloadsOf := t.overloadsOf.insert f.name (t.overloads f.name ++ [f])
    funcs := t.funcs ++ [f]
    members := t.members ++ [.func f] }

/-- **Declare a member** of a class in its tables, or give the member that it conflicts with. -/
def declare (r : ClassRef) (t : Tables) : Declaration → Tables × Except Member Member
  | .var name pos type =>
    match t.varOf.lookup name with
    | some prev => (t, .error (.var prev))
    | none =>
      let v : MemberVar := ⟨r, t.vars.length, name, pos, type⟩
      (t.addVar v, .ok (.var v))
  | .func f =>
    match (t.overloads f.name).find? fun g => g.kind == f.kind && g.sig.same f.sig with
    | some prev => (t, .error (.func prev))
    | none =>
      let f : MemberFunction := { f with cls := r, index := t.funcs.length }
      (t.addFunc f, .ok (.func f))

/-- The tables of a class after declarations. -/
def fill (r : ClassRef) (es : List Declaration) : Tables :=
  es.foldl (fun t e => (t.declare r e).1) {}

/-- **Tables of a class**: they hold its members. -/
structure Describes (t : Tables) (c : Class) : Prop where
  members_eq : t.members = c.members
  vars_eq : t.vars = c.vars
  funcs_eq : t.funcs = c.funcs
  varOf_eq : ∀ n, t.varOf.lookup n = c.var? n
  overloads_eq : ∀ n, t.overloads n = c.lookup n []
  mem_overloadsOf : ∀ n, n ∈ t.overloadsOf ↔ ∃ f ∈ c.funcs, f.name = n

variable {t : Tables} {c : Class} {r : ClassRef}

/-- Without declarations, the tables and the class are empty. -/
lemma describes_empty (r : ClassRef) (pos : Position) : ({} : Tables).Describes ⟨r, pos, []⟩ where
  members_eq := rfl
  vars_eq := rfl
  funcs_eq := rfl
  varOf_eq _ := rfl
  overloads_eq _ := rfl
  mem_overloadsOf n := by simp [Class.funcs, AList.notMem_empty]

/-- A function is added to those of its name. -/
lemma overloads_addFunc (t : Tables) (f : MemberFunction) (n : String) :
    (t.addFunc f).overloads n = t.overloads n ++ if n = f.name then [f] else [] := by
  unfold overloads addFunc
  split
  · subst n
    rw [AList.lookup_insert, Option.getD_some]
    rfl
  · rw [AList.lookup_insert_ne (by assumption), List.append_nil]

namespace Describes

/-- A conflict is looked for among the functions of the same name only. -/
lemma find?_overloads (h : t.Describes c) (f : MemberFunction) :
    ((t.overloads f.name).find? fun g => g.kind == f.kind && g.sig.same f.sig) =
      c.funcs.find? fun g => g.name == f.name && g.kind == f.kind && g.sig.same f.sig := by
  rw [h.overloads_eq, Class.lookup, List.find?_filter]
  simp [Bool.and_assoc, Bool.beq_eq_decide_eq]

/-- A new variable stands in all tables of its class. -/
lemma addVar (h : t.Describes c) {v : MemberVar} (hv : c.var? v.name = none) :
    (t.addVar v).Describes { c with members := c.members ++ [.var v] } where
  members_eq := congrArg (· ++ _) h.members_eq
  vars_eq := by rw [Class.vars_append_var, ← h.vars_eq, Tables.addVar]
  funcs_eq := by rw [Class.funcs_append_var, ← h.funcs_eq, Tables.addVar]
  varOf_eq n := by
    rw [Tables.addVar, Class.var?, Class.vars_append_var, List.find?_append]
    by_cases hn : n = v.name
    · subst hn
      rw [Class.var?] at hv
      simp [hv]
    · rw [AList.lookup_insert_ne hn, h.varOf_eq, Class.var?]
      simp [Ne.symm hn]
  overloads_eq n := by
    rw [Class.lookup, Class.funcs_append_var]
    exact h.overloads_eq n
  mem_overloadsOf n := by
    rw [Class.funcs_append_var]
    exact h.mem_overloadsOf n

/-- A new function stands in all tables of its class. -/
lemma addFunc (h : t.Describes c) (f : MemberFunction) :
    (t.addFunc f).Describes { c with members := c.members ++ [.func f] } where
  members_eq := congrArg (· ++ _) h.members_eq
  vars_eq := by rw [Class.vars_append_func, ← h.vars_eq, Tables.addFunc]
  funcs_eq := by rw [Class.funcs_append_func, ← h.funcs_eq, Tables.addFunc]
  varOf_eq n := by
    rw [Class.var?, Class.vars_append_func]
    exact h.varOf_eq n
  overloads_eq n := by
    rw [overloads_addFunc, h.overloads_eq, Class.lookup, Class.lookup, Class.funcs_append_func,
      List.filter_append]
    by_cases hn : n = f.name
    · simp [hn]
    · simp [hn, Ne.symm hn]
  mem_overloadsOf n := by
    rw [Class.funcs_append_func, Tables.addFunc, AList.mem_insert, h.mem_overloadsOf]
    simp [or_comm, or_and_right, exists_or, eq_comm]

/-- **Step**: a declaration does the same to a class and to its tables. -/
theorem declare (h : t.Describes c) (e : Declaration) : (t.declare c.ref e).2 = c.outcome e ∧
    (t.declare c.ref e).1.Describes (c.declare e) := by
  cases hc : c.conflict? e with
  | some m =>
    obtain ⟨hout, hdecl⟩ := Class.declare_rejected hc
    rw [hout, hdecl]
    cases e with
    | var name pos type =>
      rw [Class.conflict?_var, Option.map_eq_some_iff] at hc
      obtain ⟨v, hv, rfl⟩ := hc
      rw [Tables.declare, h.varOf_eq, hv]
      exact ⟨rfl, h⟩
    | func f =>
      rw [Class.conflict?_func, Option.map_eq_some_iff] at hc
      obtain ⟨g, hg, rfl⟩ := hc
      rw [Tables.declare, h.find?_overloads, hg]
      exact ⟨rfl, h⟩
  | none =>
    obtain ⟨hout, hdecl⟩ := Class.declare_accepted hc
    rw [hout, hdecl]
    cases e with
    | var name pos type =>
      rw [Class.conflict?_var, Option.map_eq_none_iff] at hc
      rw [Tables.declare, h.varOf_eq, hc, Declaration.member, ← h.vars_eq]
      exact ⟨rfl, h.addVar hc⟩
    | func f =>
      rw [Class.conflict?_func, Option.map_eq_none_iff] at hc
      rw [Tables.declare, h.find?_overloads, hc, Declaration.member, ← h.funcs_eq]
      exact ⟨rfl, h.addFunc _⟩

end Describes

/-- **Run**: the tables are those of the class after all declarations. -/
theorem describes_fill (r : ClassRef) (pos : Position) (es : List Declaration) :
    (fill r es).Describes (Class.populate ⟨r, pos, []⟩ es) := by
  suffices hrun : ∀ (t : Tables) (c : Class), t.Describes c → c.ref = r →
      (es.foldl (fun t e => (t.declare r e).1) t).Describes (c.populate es) from
    hrun {} ⟨r, pos, []⟩ (describes_empty r pos) rfl
  induction es with
  | nil => exact fun t c h _ => h
  | cons e es ih =>
    intro t c h hr
    subst hr
    exact ih _ _ (h.declare e).2 (c.declare_ref e)

section Describes

variable (h : t.Describes c)

include h

/-- Tables find the functions of the class. -/
lemma Describes.lookup_eq (n : String) (kinds : List FuncKind) :
    t.lookup n kinds = c.lookup n kinds := by
  unfold lookup
  rw [h.overloads_eq]
  cases kinds with
  | nil => rfl
  | cons k ks =>
    unfold Class.lookup
    rw [if_neg (by simp), List.filter_filter]
    refine List.filter_congr fun f _ => ?_
    rw [List.isEmpty_nil, Bool.true_or, Bool.and_true, List.isEmpty_cons, Bool.false_or,
      Bool.and_comm, List.contains_eq_any_beq]

/-- Tables list the names of the functions of the class. -/
lemma Describes.funcNames_eq : t.funcNames = c.funcNames := by
  refine mergeSort_eq_of_mem_iff t.overloadsOf.keys_nodup (nodup_eraseDups _) fun n => ?_
  rw [← AList.mem_keys, h.mem_overloadsOf, List.mem_eraseDups, List.mem_map]

end Describes

/-- **Tables that go together**: the variables and the functions are the members in their order; a
variable is numbered by its place and found by its name, which no other variable has; the functions
of a name are found in their order, and no two of them have the same kind and types; the names of
functions are in order, and each of them stands there once. -/
structure IsConsistent (t : Tables) : Prop where
  vars_eq : t.members.filterMap Member.var? = t.vars
  funcs_eq : t.members.filterMap Member.func? = t.funcs
  var_names : (t.vars.map MemberVar.name).Nodup
  var_index : ∀ (i : Nat) (v : MemberVar), t.vars[i]? = some v → v.index = i
  var_lookup : ∀ (n : String) (v : MemberVar),
    t.varOf.lookup n = some v ↔ v ∈ t.vars ∧ v.name = n
  func_lookup : ∀ (n : String) (kinds : List FuncKind), t.lookup n kinds =
    t.funcs.filter fun f => f.name = n ∧ (kinds = [] ∨ f.kind ∈ kinds)
  funcs_apart : ∀ (i j : Nat) (f g : MemberFunction), t.funcs[i]? = some f →
    t.funcs[j]? = some g → f.name = g.name → f.kind = g.kind → f.sig.same g.sig → i = j
  funcNames_sorted : t.funcNames.Pairwise (· < ·)
  mem_funcNames : ∀ n : String, n ∈ t.funcNames ↔ ∃ f ∈ t.funcs, f.name = n

/-- The tables of a class that is in order go together. -/
lemma Describes.isConsistent (h : t.Describes c) (hc : c.IsInOrder) : t.IsConsistent where
  vars_eq := by rw [h.members_eq, h.vars_eq, Class.vars_eq]
  funcs_eq := by rw [h.members_eq, h.funcs_eq, Class.funcs_eq]
  var_names := h.vars_eq ▸ hc.var_names
  var_index := h.vars_eq ▸ hc.var_index
  var_lookup n v := by rw [h.varOf_eq, hc.var?_eq_some_iff, h.vars_eq]
  func_lookup n kinds := by
    rw [h.lookup_eq, h.funcs_eq, Class.lookup]
    refine List.filter_congr fun f _ => ?_
    cases kinds <;> simp [Bool.beq_eq_decide_eq]
  funcs_apart i j f g hf hg hname hkind hsame := by
    rw [h.funcs_eq] at hf hg
    obtain ⟨hi, rfl⟩ := List.getElem?_eq_some_iff.1 hf
    obtain ⟨hj, rfl⟩ := List.getElem?_eq_some_iff.1 hg
    have hapart := List.pairwise_iff_getElem.1 hc.funcs_apart
    obtain hlt | heq | hgt := lt_trichotomy i j
    · exact (hapart i j hi hj hlt ⟨hname, hkind, hsame⟩).elim
    · exact heq
    · rw [Signature.same_comm] at hsame
      exact (hapart j i hj hi hgt ⟨hname.symm, hkind.symm, hsame⟩).elim
  funcNames_sorted := mergeSort_pairwise_lt t.overloadsOf.keys_nodup
  mem_funcNames n := by
    rw [funcNames, List.mem_mergeSort, ← AList.mem_keys, h.mem_overloadsOf, h.funcs_eq]

/-- **One declaration, two views**: if it conflicts with members, both the class and its tables give
the first of them and stay as they are, and else both add the member of the declaration at the
end. -/
def Settles (t : Tables) (c : Class) (e : Declaration) : Prop :=
  (∃ m, c.members.find? (·.conflicts e) = some m ∧ c.outcome e = .error m ∧ c.declare e = c ∧
    t.declare c.ref e = (t, .error m)) ∨
  (∀ m ∈ c.members, m.conflicts e = false) ∧ c.outcome e = .ok (e.member c) ∧
    (c.declare e).members = c.members ++ [e.member c] ∧
    (t.declare c.ref e).2 = .ok (e.member c) ∧
    (t.declare c.ref e).1.members = t.members ++ [e.member c]

/-- A rejected declaration changes no table. -/
lemma declare_fst_of_error {e : Declaration} {m : Member} (h : (t.declare r e).2 = .error m) :
    (t.declare r e).1 = t := by
  cases e with
  | var name pos type =>
    rw [declare] at h ⊢
    split at h <;> simp_all
  | func f =>
    rw [declare] at h ⊢
    split at h <;> simp_all

/-- Tables and class settle declarations alike. -/
lemma Describes.settles (h : t.Describes c) (e : Declaration) : t.Settles c e := by
  obtain ⟨hres, hnext⟩ := h.declare e
  cases hc : c.conflict? e with
  | some m =>
    obtain ⟨hout, hdecl⟩ := Class.declare_rejected hc
    rw [hout] at hres
    exact .inl ⟨m, hc, hout, hdecl, Prod.ext (declare_fst_of_error hres) hres⟩
  | none =>
    obtain ⟨hout, hdecl⟩ := Class.declare_accepted hc
    refine .inr ⟨by simpa [Class.conflict?] using hc, hout, by rw [hdecl], hres.trans hout, ?_⟩
    rw [hnext.members_eq, hdecl, h.members_eq]

/-- **The tables go together**: after any declarations of members, they are the tables of the class,
whose members are those that were added, and the next declaration does the same to both. -/
theorem fill_isConsistent (r : ClassRef) (pos : Position) (es : List Declaration) :
    (fill r es).Describes (Class.populate ⟨r, pos, []⟩ es) ∧ (fill r es).IsConsistent ∧
      (fill r es).members = Class.added ⟨r, pos, []⟩ es ∧
      (∀ n kinds, (Class.populate ⟨r, pos, []⟩ es).lookup n kinds = (fill r es).lookup n kinds) ∧
      (Class.populate ⟨r, pos, []⟩ es).funcNames = (fill r es).funcNames ∧
      ∀ e, (fill r es).Settles (Class.populate ⟨r, pos, []⟩ es) e := by
  have h := describes_fill r pos es
  have hempty : Class.IsInOrder ⟨r, pos, []⟩ :=
    ⟨List.nodup_nil, fun i v hv => (by simp [Class.vars] at hv), List.Pairwise.nil⟩
  have hmembers : (fill r es).members = Class.added ⟨r, pos, []⟩ es := by
    rw [h.members_eq, Class.members_populate, List.nil_append]
  exact ⟨h, h.isConsistent (hempty.populate es), hmembers,
    fun n kinds => (h.lookup_eq n kinds).symm, h.funcNames_eq.symm, h.settles⟩

end Tables

end Lane
