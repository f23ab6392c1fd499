import Lane.Lowering.Layout

set_option relaxedAutoImplicit false
set_option autoImplicit false

/-!
# Packed layouts

The packed layout of a `simd` class holds several instances lane by lane: every scalar member
becomes a vector with one lane for each instance. Truth values become integer masks as wide as the
widest scalar of the class. Pointers and containers are shared by all instances and keep their form.

## Main definitions

* `Lane.Packing.PackedMember`: a member of a packed layout.
* `Lane.Packing.PackedLayouts`: the packed layouts made so far.
* `Lane.Packing.packClass`: the packed layout of a class.
* `Lane.Packing.PackedLayouts.offset?`: where a path of a scalar layout leads in the packed layout.
-/

namespace Lane.Packing

open Lane.Code Lane.Lowering

/-- A member of a packed layout. A mask stores truth values as integers. -/
structure PackedMember where
  member : StructMember
  isMask : Bool := false
  deriving Repr, Inhabited

/-- The packed layouts made so far. -/
structure PackedLayouts where
  /-- The packed layout of each class that was looked at, if it has one. -/
  classes : List (Nat × Option Struct) := []
  /-- The packed layout that belongs to the layout with a name, in the order of completion. -/
  byName : List (String × Struct) := []
  /-- The packed member that belongs to the member of a layout, both by their names. -/
  members : List ((String × String) × PackedMember) := []
  diagnostics : Diagnostics := {}
  errors : Nat := 0
  deriving Repr, Inhabited

namespace PackedLayouts

/-- The packed layout of a class that was looked at. -/
def struct? (l : PackedLayouts) (c : ClassRef) : Option Struct := (l.classes.lookup c.id).join

/-- The packed layouts in the order of completion. -/
def structs (l : PackedLayouts) : List Struct := l.byName.map Prod.snd

/-- Report an error. -/
def report (l : PackedLayouts) (pos : Position) (message : String) : PackedLayouts :=
  { l with
    errors := l.errors + 1
    diagnostics := l.diagnostics.push (.error .notVectorizable pos message) }

/-- Record that a class has no packed layout. -/
def recordNone (l : PackedLayouts) (c : ClassRef) : PackedLayouts :=
  { l with classes := l.classes ++ [(c.id, none)] }

/-- Record the packed layout of a class. -/
def record (l : PackedLayouts) (c : ClassRef) (scalar : String) (s : Struct) : PackedLayouts :=
  { l with
    classes := l.classes ++ [(c.id, some s)]
    byName := l.byName ++ [(scalar, s)] }

/-- The packed member that belongs to a member; the fields of a container header stand for
themselves. -/
def member? (l : PackedLayouts) (m : StructMember) : Option PackedMember :=
  match m.owner with
  | none => some { member := m }
  | some owner => l.members.lookup (owner, m.name)

/-- Where a path of a scalar layout leads in the packed layout, and the last member on it. A path
without steps leads nowhere. -/
def offset? (l : PackedLayouts) (o : Option Offset) : Option (Offset × PackedMember) := do
  let path ← (← o).path.mapM l.member?
  let last ← path.getLast?
  return (.ofPath (path.map PackedMember.member), last)

end PackedLayouts

/-- The size of the widest scalar of a class, with the `simd` classes that it holds. The fuel bounds
how deep they are nested. -/
def widestIn (p : Program) : Nat → ClassRef → Nat
  | 0, _ => 1
  | fuel + 1, c =>
    (p.classOf c).vars.foldl
      (fun w v => match v.type with
        | .scalar _ k => max w k.size
        | .cls _ d => if d.isSimd && d.id != c.id then max w (widestIn p fuel d) else w
        | _ => w) 1

/-- The size of the widest scalar of a class, with the `simd` classes that it holds. -/
def widest (p : Program) (c : ClassRef) : Nat := widestIn p (p.classes.length + 1) c

/-- The packed form of a member that is a machine value. -/
def packValue (width : Nat) (mask : VType) (t : VType) : VType × Bool :=
  match t.kind with
  | .i1 => (mask, true)
  | .ptr => (t, false)
  | _ => (t.vector width, false)

/-- Place a packed member after the others, and record to which scalar member it belongs. -/
def placePacked (scalar : Struct) (s : Struct) (name : String) (shape : MemberShape) (isMask : Bool)
    (l : PackedLayouts) : Struct × PackedLayouts :=
  let s := s.append name shape
  let entry := s.members.getLast?.map fun m => ((scalar.name, name), (⟨m, isMask⟩ : PackedMember))
  (s, { l with members := l.members ++ entry.toList })

/-- Place the packed forms of member variables one after the other, `nested` packing the classes
among them. There is no layout if a variable has none. -/
def packVars (cls : Class) (scalar : Struct) (width : Nat) (mask : VType)
    (nested : ClassRef → PackedLayouts → Option Struct × PackedLayouts) :
    List MemberVar → Struct → Bool → PackedLayouts → Option Struct × PackedLayouts
  | [], s, ok, l => (if ok then some s.finish else none, l)
  | v :: vs, s, ok, l =>
    match v.type with
    | .cls _ c =>
      if !c.isSimd then
        packVars cls scalar width mask nested vs s false
          (l.report v.pos ("class " ++ cls.name ++ " is simd but its member '" ++ v.name ++
            "' has non-simd class " ++ c.name))
      else match nested c l with
        | (none, l) => packVars cls scalar width mask nested vs s false l
        | (some t, l) =>
          let (s, l) := placePacked scalar s v.name t.asMember false l
          packVars cls scalar width mask nested vs s ok l
    | .container .. =>
      let (s, l) := placePacked scalar s v.name .header false l
      packVars cls scalar width mask nested vs s ok l
    | t =>
      let (packed, isMask) := packValue width mask t.code
      let (s, l) := placePacked scalar s v.name (.value packed) isMask l
      packVars cls scalar width mask nested vs s ok l

/-- Pack a class. The fuel bounds how deep classes are nested. -/
def packClassIn (p : Program) (layouts : Layouts) (width : Nat) :
    Nat → ClassRef → PackedLayouts → Option Struct × PackedLayouts
  | 0, _, l => (none, l)
  | fuel + 1, c, l =>
    match l.classes.lookup c.id with
    | some s => (s, l)
    | none =>
      match (layouts.struct? c).filter fun _ => c.isSimd with
      | none => (none, l.recordNone c)
      | some scalar =>
        let cls := p.classOf c
        let mask := (VType.scalar (.intOfSize (widest p c))).vector width
        let start : Struct :=
          { name := cls.name ++ ".x" ++ toString width, isPacked := true, lanes := width }
        match packVars cls scalar width mask (packClassIn p layouts width fuel) cls.vars start true
            l with
        | (none, l) => (none, l.recordNone c)
        | (some s, l) => (some s, l.record c scalar.name s)

/-- The packed layout of a class: as many instances as `width` says, lane by lane. -/
def packClass (p : Program) (layouts : Layouts) (width : Nat) (c : ClassRef) (l : PackedLayouts) :
    Option Struct × PackedLayouts :=
  packClassIn p layouts width (p.classes.length + 1) c l

/-- Pack all classes of a program. -/
def packAll (p : Program) (layouts : Layouts) (width : Nat) (ds : Diagnostics) : PackedLayouts :=
  p.classes.foldl (fun l c => (packClass p layouts width c.ref l).2) { diagnostics := ds }

end Lane.Packing
