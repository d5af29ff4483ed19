import RecordLayout.Proofs.Layout.ByteMembers
import RecordLayout.Proofs.Layout.FailurePath
import RecordLayout.Proofs.Layout.Unambiguous

/-!
# Failures lead to the first member at fault

The path of a failed layout is a chain of member names.  At each level of the chain the members
before the one that is named lay out on their own, and with that member they do not, so each name is
that of the first member at fault.  The chain goes on into the aggregate under the type of a member
as long as the fault is in there: where it ends, the layout fails even if that aggregate has no
members at all.

The statement is about the plain layout and by induction on types.  An engine fails as the plain
layout does when the types that it looks up are unambiguous.  Otherwise it may find the layout of
an equal key for the first member at fault and go on to a later fault
(`Engine.later_fault_of_layout_drift`).

## Main definitions

* `TypeNode.elementAggregate?` and `TypeNode.memberAggregate?` find the aggregate under a type;
* `TypeNode.hollow` leaves its members out;
* `Aggregate.holding` has some of the members of an aggregate;
* `Trail` is a chain of members that leads to the first fault, and `Leads` starts it at a type.

## Main results

* `failsInside_node`: a type fails in the aggregate under it, or else without it;
* `leads_of_layoutOf`: the path of a failed plain layout;
* `Engine.leads_of_layout_error`: the path of a failed layout by way of an engine.
-/

namespace RecordLayout

/-! ## Chains of members -/

/-- A type lays out under a profile. -/
def LaysOut (p : Profile) (t : TypeNode) : Prop := ∃ r, layoutOf p t = .ok r

/-- The name that a type adds to a path when it is laid out on its own: an aggregate adds its
name. -/
def TypeNode.rootStep : TypeNode → List String
  | .aggregate a => pathStep a.name
  | _ => []

/-- The aggregate that a type is, or is an array of. -/
def TypeNode.elementAggregate? : TypeNode → Option Aggregate
  | .aggregate a => some a
  | .array e _ => e.elementAggregate?
  | _ => none

/-- The aggregate under the type of a member, which may be an open-ended array as well. -/
def TypeNode.memberAggregate? : TypeNode → Option Aggregate
  | .flexibleArray e => e.elementAggregate?
  | t => t.elementAggregate?

/-- An aggregate without its members. -/
def Aggregate.hollow (a : Aggregate) : Aggregate := { a with members := [] }

/-- A type without the members of the aggregate under it. -/
def TypeNode.hollow : TypeNode → TypeNode
  | .aggregate a => .aggregate a.hollow
  | .array e dims => .array e.hollow dims
  | .flexibleArray e => .flexibleArray e.hollow
  | t => t

/-- A member without the members of the aggregate under its type. -/
def Member.hollow (x : Member) : Member := { x with type := x.type.hollow }

/-- Members on their own, in an aggregate like the given one that requests no alignment. -/
def Aggregate.holding (a : Aggregate) (members : List Member) : Aggregate :=
  { a with members, attributes := { a.attributes with aligned := [] } }

/-- A chain of members of an aggregate that leads to its first fault, given by the names on it.
Unnamed members are on the chain without a name. -/
inductive Trail (p : Profile) : Aggregate → List String → Prop
  /-- The fault is at a member, whatever members the aggregate under its type has. -/
  | ends {a : Aggregate} {pre post : List Member} {x : Member}
      (split : a.members = pre ++ x :: post) (before : LaysOut p (.aggregate (a.holding pre)))
      (fault : ¬ LaysOut p (.aggregate (a.holding (pre ++ [x.hollow])))) :
      Trail p a (pathStep x.name)
  /-- The fault is in the aggregate under the type of a member. -/
  | goesOn {a b : Aggregate} {pre post : List Member} {x : Member} {path : List String}
      (split : a.members = pre ++ x :: post) (before : LaysOut p (.aggregate (a.holding pre)))
      (fault : ¬ LaysOut p (.aggregate (a.holding (pre ++ [x]))))
      (under : x.type.memberAggregate? = some b) (inside : Trail p b path) :
      Trail p a (pathStep x.name ++ path)

/-- A path leads to the first fault in an aggregate, if there is one. -/
def LeadsInside (p : Profile) (a? : Option Aggregate) (path : List String) : Prop :=
  ∃ a, a? = some a ∧ Trail p a path

/-- A path leads from a type to its first fault: it is empty when the type does not lay out even
with the members of the aggregate under it left out. -/
def Leads (p : Profile) (t : TypeNode) (path : List String) : Prop :=
  LeadsInside p t.elementAggregate? path ∨ path = [] ∧ ¬ LaysOut p t.hollow

section

variable {p : Profile} {cap : Option Int} {a : Aggregate} {x : Member} {node : TypeNode}

theorem memberAggregate?_of_memberOnly? (h : node.memberOnly? = none) :
    node.memberAggregate? = node.elementAggregate? := by
  cases node with
  | flexibleArray e => cases h
  | primitive | aggregate | array | bitfield | incomplete | unknown => rfl

theorem memberOnly?_hollow (node : TypeNode) : node.hollow.memberOnly? = node.memberOnly? := by
  cases node <;> rfl

/-! ## Members on their own -/

/-- Members on their own lay out when they can be placed under the cap of the aggregate. -/
theorem laysOut_holding_iff (hcap : a.packCap = .ok cap) (xs : List Member) :
    LaysOut p (.aggregate (a.holding xs)) ↔
      ∃ s, sequenceMembers Setting.pure p cap a.kind (measureMembers Setting.pure p xs) =
        .ok s := by
  have hcap' : (a.holding xs).packCap = .ok cap := hcap
  unfold LaysOut
  simp only [Aggregate.layoutOf_eq, Failure.within_eq_ok]
  constructor
  · rintro ⟨r, hr⟩
    obtain ⟨cap', hc, hr⟩ := Except.bind_eq_ok.mp hr
    obtain rfl : cap = cap' := Except.ok.inj (hcap'.symm.trans hc)
    obtain ⟨s, hs, -⟩ := Except.bind_eq_ok.mp hr
    exact ⟨s, hs⟩
  · rintro ⟨s, hs⟩
    exact ⟨_, Except.bind_eq_ok.mpr ⟨cap, hcap', Except.bind_eq_ok.mpr ⟨s, hs, rfl⟩⟩⟩

/-- A member at fault: the fault is in the aggregate under its type, or `refused` is true. -/
def FaultAt (p : Profile) (x : Member) (refused : Prop) (path : List String) : Prop :=
  ∃ rest, path = pathStep x.name ++ rest ∧
    (LeadsInside p x.type.memberAggregate? rest ∨ rest = [] ∧ refused)

/-- **A walk over members fails at the first of them that cannot be placed.** -/
theorem trail_of_foldlM {σ : Type} {start : σ}
    {place : σ → Measured (Except Failure) → Except Failure σ}
    (hlays : ∀ xs, LaysOut p (.aggregate (a.holding xs)) ↔
      ∃ t, (measureMembers Setting.pure p xs).foldlM place start = .ok t)
    (hplace : ∀ x ∈ a.members, ∀ s, FailsAt p
      (FaultAt p x (∀ t, place s (x.hollow.measured Setting.pure p) ≠ .ok t))
      (place s (x.measured Setting.pure p))) :
    FailsAt p (Trail p a) ((measureMembers Setting.pure p a.members).foldlM place start) := by
  intro f hf
  rw [measureMembers_eq_map] at hf
  obtain ⟨before, m, after, s, hsplit, hbefore, hm⟩ := Except.foldlM_eq_error hf
  obtain ⟨pre, rest, hmembers, rfl, hrest⟩ := List.map_eq_append_iff.mp hsplit
  obtain ⟨x, post, rfl, rfl, -⟩ := List.map_eq_cons_iff.mp hrest
  rw [← measureMembers_eq_map] at hbefore
  -- A member fits after those before it when it can be placed in the state they lead to.
  have hfits : ∀ y, LaysOut p (.aggregate (a.holding (pre ++ [y]))) ↔
      ∃ t, place s (y.measured Setting.pure p) = .ok t := by
    intro y
    rw [hlays, measureMembers_eq_map, List.map_append, ← measureMembers_eq_map, List.foldlM_append,
      hbefore]
    refine exists_congr fun t => ?_
    change (place s _ >>= pure) = _ ↔ _
    rw [bind_pure]
  have hpre : LaysOut p (.aggregate (a.holding pre)) := (hlays pre).mpr ⟨s, hbefore⟩
  have hx : x ∈ a.members := by
    rw [hmembers]
    exact List.mem_append_right pre List.mem_cons_self
  refine (hplace x hx s f hm).mono ?_
  rintro path ⟨rest, rfl, ⟨b, hunder, hinside⟩ | ⟨rfl, hrefused⟩⟩
  · refine .goesOn hmembers hpre ?_ hunder hinside
    rw [hfits]
    rintro ⟨t, ht⟩
    rw [hm] at ht
    cases ht
  · rw [List.append_nil]
    refine .ends hmembers hpre ?_
    rw [hfits]
    rintro ⟨t, ht⟩
    exact hrefused t ht

/-! ## One member -/

/-- What the induction shows of the type of a member: it fails in the aggregate under it, or else
without the members of that aggregate, too. -/
structure FailsInside (p : Profile) (x : Member) : Prop where
  extent : FailsAlong p (LeadsInside p x.type.memberAggregate?)
    (x.type.measure Setting.pure p).extent (x.type.hollow.measure Setting.pure p).extent
  nested : FailsAlong p (LeadsInside p x.type.memberAggregate?)
    (nestedLayout Setting.pure (x.measured Setting.pure p))
    (nestedLayout Setting.pure (x.hollow.measured Setting.pure p))

/-- Whether a member has an extent does not depend on the extent of its type. -/
theorem failsAlong_memberExtent (Q : List String → Prop) (x : Member) (natural natural' : Extent) :
    FailsAlong p Q (p.memberExtent x cap natural) (p.memberExtent x.hollow cap natural') := by
  rw [Profile.memberExtent_eq, Profile.memberExtent_eq]
  exact .map (.self (failsAt_checkRequested x))

theorem failsAlong_arrayCount (Q : List String → Prop) (e : TypeNode) (dims : List Json) :
    FailsAlong p Q (arrayCount e dims) (arrayCount e.hollow dims) := by
  cases dims with
  | nil => exact .together (failsAt_arrayCount e []) fun _ n => nofun
  | cons d ds =>
    rw [arrayCount_congr (memberOnly?_hollow e) (List.cons_ne_nil d ds)]
    exact .self (failsAt_arrayCount e (d :: ds))

theorem failsAlong_checkFlexibleElement (Q : List String → Prop) (e : TypeNode) :
    FailsAlong p Q (checkFlexibleElement e) (checkFlexibleElement e.hollow) := by
  rw [checkFlexibleElement_congr (memberOnly?_hollow e)]
  exact .self (failsAt_checkFlexibleElement e)

theorem failsAlong_finish (Q : List String → Prop) (a : Aggregate) (s s' : Sequenced) :
    FailsAlong p Q (a.finish s) (a.hollow.finish s') := by
  refine .map (.together (failsAt_alignmentFrom a s.alignment) fun hfails n hn => ?_)
  unfold Aggregate.alignmentFrom at hfails hn
  cases hr : a.attributes.requested? with
  | none =>
    rw [hr] at hfails
    exact hfails s.alignment rfl
  | some requested =>
    have hr' : a.hollow.attributes.requested? = some requested := hr
    rw [hr] at hfails
    rw [hr'] at hn
    obtain ⟨u, hu, -⟩ := Except.map_eq_ok.mp hn
    exact hfails (max s.alignment requested) (Except.map_eq_ok.mpr ⟨u, hu, rfl⟩)

/-- A bitfield fails without a path. -/
theorem failsAt_bitfield {σ : Type} (x : Member) (base : Primitive) (width : Json) (cursor : Int)
    (unit : Option Bitfield.OpenUnit) {next : Bitfield.Placed → Except Failure σ}
    (hnext : ∀ placed, FailsAt p (· = []) (next placed)) :
    FailsAt p (· = []) (bitfieldOf p x cap base width >>= fun field =>
      Bitfield.place p field cursor unit >>= next) := by
  refine .bind (failsAt_bitfieldOf x cap base width) fun field hfield => ?_
  exact .bind (failsAt_place hfield cursor unit) fun placed _ => hnext placed

theorem failsAt_placeBitfield (s : StructState) (x : Member) (base : Primitive) (width : Json) :
    FailsAt p (· = []) (placeBitfield Setting.pure p cap s x base width) := by
  unfold placeBitfield
  simp only [Setting.pure_lift]
  refine failsAt_bitfield x base width s.cursor s.unit fun placed => .bind (.ok ()) fun _ _ => ?_
  split <;> exact .ok _

theorem failsAt_overlayBitfield (s : UnionState) (x : Member) (base : Primitive) (width : Json) :
    FailsAt p (· = []) (overlayBitfield Setting.pure p cap s x base width) := by
  unfold overlayBitfield
  simp only [Setting.pure_lift]
  refine failsAt_bitfield x base width 0 none fun placed => .bind (.ok ()) fun _ _ => ?_
  split <;> exact .ok _

/-- What fails on behalf of a member fails at that member. -/
theorem FailsAlong.within {σ : Type} {y z : Except Failure σ}
    (h : FailsAlong p (LeadsInside p x.type.memberAggregate?) y z) :
    FailsAt p (FaultAt p x (∀ t, Setting.pure.within x.hollow.pathName z ≠ .ok t))
      (Setting.pure.within x.pathName y) := by
  refine FailsAt.mono (FailsAt.within h) ?_
  rintro path ⟨rest, rfl, hrest⟩
  refine ⟨rest, rfl, hrest.imp id ?_⟩
  rintro ⟨rfl, hz⟩
  exact ⟨rfl, fun t ht => hz t (Failure.within_eq_ok.mp ht)⟩

section Place

variable (hx : FailsInside p x)

include hx

/-- The extent of a member fails in the aggregate under its type, or else without it. -/
theorem FailsInside.extent_bind {σ : Type} {next next' : Extent → Except Failure σ}
    (hnext : ∀ extent extent', FailsAlong p (LeadsInside p x.type.memberAggregate?) (next extent)
      (next' extent')) :
    FailsAlong p (LeadsInside p x.type.memberAggregate?)
      ((x.type.measure Setting.pure p).extent >>= fun natural =>
        p.memberExtent x cap natural >>= next)
      ((x.hollow.type.measure Setting.pure p).extent >>= fun natural =>
        p.memberExtent x.hollow cap natural >>= next') := by
  refine .bind hx.extent fun natural _ natural' => ?_
  refine .bind (failsAlong_memberExtent _ x natural natural') fun extent _ extent' => ?_
  exact hnext extent extent'

theorem FailsInside.placeFlexible (s : StructState) :
    FailsAlong p (LeadsInside p x.type.memberAggregate?)
      (placeFlexible Setting.pure p cap s (x.measured Setting.pure p))
      (placeFlexible Setting.pure p cap s (x.hollow.measured Setting.pure p)) := by
  unfold RecordLayout.placeFlexible
  simp only [Member.measure_measured, Member.member_measured, Setting.pure_lift]
  refine .bind (.self (.ok ())) fun _ _ _ => hx.extent_bind fun extent extent' => ?_
  have hname : x.hollow.name = x.name := rfl
  rw [hname]
  cases x.name with
  | none => exact .self (.ofCause rfl)
  | some name => exact .of_failsAt (.ok _) _

theorem FailsInside.placeValue (s : StructState) :
    FailsAlong p (LeadsInside p x.type.memberAggregate?)
      (placeValue Setting.pure p cap s (x.measured Setting.pure p))
      (placeValue Setting.pure p cap s (x.hollow.measured Setting.pure p)) := by
  unfold RecordLayout.placeValue
  simp only [Member.measure_measured, Member.member_measured, Setting.pure_lift]
  refine .bind (.self (.ok ())) fun _ _ _ => hx.extent_bind fun extent extent' => ?_
  exact .bind hx.nested fun nested _ nested' => .of_failsAt (.ok _) _

theorem FailsInside.overlayValue (s : UnionState) :
    FailsAlong p (LeadsInside p x.type.memberAggregate?)
      (overlayValue Setting.pure p cap s (x.measured Setting.pure p))
      (overlayValue Setting.pure p cap s (x.hollow.measured Setting.pure p)) := by
  unfold RecordLayout.overlayValue
  simp only [Member.measure_measured, Member.member_measured, Setting.pure_lift]
  refine hx.extent_bind fun extent extent' => ?_
  exact .bind hx.nested fun nested _ nested' => .of_failsAt (.ok _) _

/-- **A member of a struct** fails in the aggregate under its type, or else without it. -/
theorem FailsInside.placeInStruct (s : StructState) :
    FailsAt p
      (FaultAt p x (∀ t, placeInStruct Setting.pure p cap s (x.hollow.measured Setting.pure p) ≠
        .ok t))
      (placeInStruct Setting.pure p cap s (x.measured Setting.pure p)) := by
  unfold RecordLayout.placeInStruct
  rw [Member.member_measured, Member.member_measured]
  refine FailsAlong.within ?_
  cases s.flexible with
  | some name => exact .self (.ofCause rfl)
  | none =>
    obtain ⟨type, name, attributes⟩ := x
    cases type with
    | bitfield base width => exact .self (failsAt_placeBitfield s _ base width)
    | flexibleArray e => exact hx.placeFlexible s
    | primitive | aggregate | array | incomplete | unknown => exact hx.placeValue s

/-- **A member of a union** fails in the aggregate under its type, or else without it. -/
theorem FailsInside.placeInUnion (s : UnionState) :
    FailsAt p
      (FaultAt p x (∀ t, placeInUnion Setting.pure p cap s (x.hollow.measured Setting.pure p) ≠
        .ok t))
      (placeInUnion Setting.pure p cap s (x.measured Setting.pure p)) := by
  unfold RecordLayout.placeInUnion
  rw [Member.member_measured, Member.member_measured]
  refine FailsAlong.within ?_
  obtain ⟨type, name, attributes⟩ := x
  cases type with
  | bitfield base width => exact .self (failsAt_overlayBitfield s _ base width)
  | flexibleArray e => exact .self (.ofCause rfl)
  | primitive | aggregate | array | incomplete | unknown => exact hx.overlayValue s

end Place

/-! ## Types -/

/-- **The members of an aggregate** fail at the first of them that is at fault. -/
theorem failsAt_sequenceMembers (hcap : a.packCap = .ok cap)
    (hmembers : ∀ x ∈ a.members, FailsInside p x) :
    FailsAt p (Trail p a) (sequenceMembers Setting.pure p cap a.kind
      (measureMembers Setting.pure p a.members)) := by
  have hlays := laysOut_holding_iff (p := p) hcap
  cases hkind : a.kind with
  | struct =>
    simp only [hkind, sequenceMembers, sequenceStruct_eq, Except.map_eq_ok] at hlays ⊢
    refine .map (trail_of_foldlM (fun xs => ?_) fun x hx s => (hmembers x hx).placeInStruct s)
    rw [hlays]
    simp
  | union =>
    simp only [hkind, sequenceMembers, sequenceUnion_eq, Except.map_eq_ok] at hlays ⊢
    refine .map (trail_of_foldlM (fun xs => ?_) fun x hx s => (hmembers x hx).placeInUnion s)
    rw [hlays]
    simp

instance : Nonempty Sequenced := ⟨⟨[], 0, 0, false⟩⟩

/-- What the induction shows of a type. -/
structure FailsInsideType (p : Profile) (node : TypeNode) : Prop where
  extent : FailsAlong p (LeadsInside p node.memberAggregate?)
    (node.measure Setting.pure p).extent (node.hollow.measure Setting.pure p).extent
  compute : FailsAlong p (LeadsInside p node.elementAggregate?)
    (node.measure Setting.pure p).compute (node.hollow.measure Setting.pure p).compute

mutual
/-- **Induction on types**: a type fails in the aggregate under it, or else without it. -/
theorem failsInside_node : (node : TypeNode) → FailsInsideType p node
  | .primitive q => by
    have hextent := failsAt_primitiveExtent (p := p) q
    refine ⟨?_, ?_⟩
    · simp only [TypeNode.hollow, TypeNode.measure, Setting.pure_lift]
      exact .self hextent
    · simp only [TypeNode.hollow, TypeNode.measure, Setting.pure_lift]
      exact .self (.bind hextent fun _ _ => .ok _)
  | .array e dims => by
    have he := (failsInside_node e).extent
    have hextent : FailsAlong p (LeadsInside p e.elementAggregate?)
        ((TypeNode.array e dims).measure Setting.pure p).extent
        ((TypeNode.array e.hollow dims).measure Setting.pure p).extent := by
      simp only [TypeNode.measure, Setting.pure_lift]
      refine .bind (failsAlong_arrayCount _ e dims) fun count hcount count' => ?_
      rw [memberAggregate?_of_memberOnly? (arrayCount_eq_ok hcount).1] at he
      exact .bind he fun _ _ _ => .of_failsAt (.ok _) _
    exact ⟨hextent, .bind hextent fun _ _ _ => .of_failsAt (.ok _) _⟩
  | .flexibleArray e => by
    have he := (failsInside_node e).extent
    refine ⟨?_, .self (.ofCause rfl)⟩
    simp only [TypeNode.hollow, TypeNode.measure, Measure.failing, Setting.pure_lift]
    refine .bind (failsAlong_checkFlexibleElement _ e) fun _ hcheck _ => ?_
    rw [memberAggregate?_of_memberOnly? (memberOnly?_of_checkFlexibleElement hcheck)] at he
    exact .bind he fun _ _ _ => .of_failsAt (.ok _) _
  | .bitfield base width => by
    refine ⟨?_, .self (.ofCause rfl)⟩
    simp only [TypeNode.hollow, TypeNode.measure, Measure.failing, Setting.pure_lift]
    exact .self (failsAt_primitiveExtent base)
  | .incomplete label => ⟨.self (.ofCause rfl), .self (.ofCause rfl)⟩
  | .unknown kind => ⟨.self (.ofCause rfl), .self (.ofCause rfl)⟩
  | .aggregate a => by
    have ha : FailsAlong p (LeadsInside p (some a)) (a.compute Setting.pure p)
        (a.hollow.compute Setting.pure p) :=
      (failsInside_aggregate a).mono fun path hpath => ⟨a, rfl, hpath⟩
    refine ⟨?_, ha⟩
    simp only [TypeNode.hollow, TypeNode.measure]
    exact .bind ha fun _ _ _ => .of_failsAt (.ok _) _

theorem failsInside_aggregate : (a : Aggregate) →
    FailsAlong p (Trail p a) (a.compute Setting.pure p) (a.hollow.compute Setting.pure p)
  | ⟨kind, members, name, pack, attributes, origin⟩ => by
    have hmembers := failsInside_members members
    simp only [Aggregate.hollow, Aggregate.compute, Aggregate.layoutFrom, Setting.pure_lift]
    refine .bind (.self (failsAt_packCap _)) fun cap hcap cap' => ?_
    refine .bind (.of_failsAt (failsAt_sequenceMembers hcap hmembers) _) fun s _ s' => ?_
    exact failsAlong_finish _ _ s s'

theorem failsInside_members : (xs : List Member) → ∀ x ∈ xs, FailsInside p x
  | [] => by simp
  | x :: xs => by
    intro y hy
    rcases List.mem_cons.mp hy with heq | hy
    · rw [heq]
      exact failsInside_member x
    · exact failsInside_members xs y hy

theorem failsInside_member : (x : Member) → FailsInside p x
  | ⟨type, name, attributes⟩ => by
    have htype := failsInside_node type
    refine ⟨htype.extent, ?_⟩
    have hcompute := htype.compute
    cases type with
    | aggregate a => exact .bind hcompute fun _ _ _ => .of_failsAt (.ok _) _
    | primitive | array | flexibleArray | bitfield | incomplete | unknown =>
      cases name with
      | none => exact .self (.ofCause rfl)
      | some name => exact .self (.ok none)
end

/-! ## Failed layouts -/

theorem laysOut_iff {t : TypeNode} :
    LaysOut p t ↔ ∃ r, (t.measure Setting.pure p).compute = .ok r := by
  unfold LaysOut layoutOf
  simp only [Failure.within_eq_ok]

/-- A type that fails leads to its first fault. -/
theorem leads_of_compute (node : TypeNode) :
    FailsAt p (Leads p node) (node.measure Setting.pure p).compute := by
  refine FailsAt.mono (failsInside_node node).compute fun path hpath => ?_
  refine hpath.imp id ?_
  rintro ⟨rfl, hhollow⟩
  refine ⟨rfl, ?_⟩
  rw [laysOut_iff]
  rintro ⟨r, hr⟩
  exact hhollow r hr

/-- **The path of a failed layout** starts with the name of the type, if that is an aggregate, and
leads to the first fault from there. -/
theorem leads_of_layoutOf (p : Profile) (node : TypeNode) :
    FailsAt p (fun path => ∃ rest, path = node.rootStep ++ rest ∧ Leads p node rest)
      (layoutOf p node) := by
  have hcompute := leads_of_compute (p := p) node
  cases node with
  | aggregate a => exact FailsAt.within hcompute
  | primitive | array | flexibleArray | bitfield | incomplete | unknown =>
    have hwithin : FailsAt p _ (Failure.within ((none : Option String).getD "") _) :=
      .within hcompute
    exact hwithin

/-- **An engine fails at the first fault**: after any calls, the path of a failed layout starts with
the name of the type, if that is an aggregate, and names the members that lead to the fault.  At
each of them the members before it lay out. -/
theorem Engine.leads_of_layout_error {channels : Channels} {limit : Option Int} {calls : List Call}
    (hasked : limit = some 0 ∨ Unambiguous (LookedUp (asked calls node))) {e : LayoutError}
    (h : ((layout p node).run ((make channels limit).replay calls)).1 = .error (.layout e)) :
    ∃ path, e.path = node.rootStep ++ path ∧ Leads p node path := by
  have hplain := layoutOf_of_layout_eq_error hasked h
  cases leads_of_layoutOf p node _ hplain with
  | layout path => exact path

end

/-! ## Examples -/

/-- An entry of a journal: a tag and a text that is only declared. -/
def journalEntry : Aggregate where
  kind := .struct
  members :=
    [⟨.primitive ⟨"char", some (.int 1), none⟩, some "tag", .none⟩,
     ⟨.incomplete (.name "text"), some "text", .none⟩]
  name := some "entry"
  pack := none
  attributes := .none
  origin := .written ["entry"]

/-- A journal with an array of entries. -/
def journal : Aggregate where
  kind := .struct
  members :=
    [⟨.primitive ⟨"int", some (.int 4), none⟩, some "count", .none⟩,
     ⟨.array (.aggregate journalEntry) [.int 8], some "entries", .none⟩,
     ⟨.primitive ⟨"int", some (.int 4), none⟩, some "check", .none⟩]
  name := some "journal"
  pack := none
  attributes := .none
  origin := .written ["journal"]

/-- The failure of a journal leads to the text of its entries, after the engine has failed for an
entry. -/
theorem Engine.leads_of_layout_error_journal :
    ((layout .lp64 (.aggregate journal)).run ((make [] none).replay
        [.layout .lp64 (.aggregate journalEntry)])).1 =
      .error (.layout ⟨.incompleteType "text", ["journal", "entries", "text"]⟩) ∧
    ∃ path, ["journal", "entries", "text"] = (TypeNode.aggregate journal).rootStep ++ path ∧
      Leads .lp64 (.aggregate journal) path := by
  have hfails : ((layout .lp64 (.aggregate journal)).run ((make [] none).replay
        [.layout .lp64 (.aggregate journalEntry)])).1 =
      .error (.layout ⟨.incompleteType "text", ["journal", "entries", "text"]⟩) := by rfl
  have hintegral : ∀ root ∈ asked [.layout .lp64 (.aggregate journalEntry)] (.aggregate journal),
      root.isIntegral = true := isIntegral_of_mem_asked (by decide) (by decide)
  have hasked := unambiguous_of_isIntegral hintegral
  exact ⟨hfails, leads_of_layout_error (.inr hasked) hfails⟩

/-- A sample of numbers, as many as a constant says. -/
def sample (dimension : Json) : Aggregate where
  kind := .struct
  members := [⟨.array (.primitive ⟨"int", some (.int 4), none⟩) [dimension], some "x", .none⟩]
  name := some "sample"
  pack := none
  attributes := .none
  origin := .written ["sample"]

/-- The rest of a drift: a sample whose number is given by a flag, and a type that is only
declared. -/
def driftRest : Aggregate where
  kind := .struct
  members :=
    [⟨.aggregate (sample (.bool true)), some "second", .none⟩,
     ⟨.incomplete (.name "sensor"), some "third", .none⟩]
  name := some "rest"
  pack := none
  attributes := .none
  origin := .written ["rest"]

/-- A sample of one number, and the rest of a drift. -/
def drift : Aggregate where
  kind := .struct
  members :=
    [⟨.aggregate (sample (.int 1)), some "first", .none⟩,
     ⟨.aggregate driftRest, some "rest", .none⟩]
  name := some "drift"
  pack := none
  attributes := .none
  origin := .written ["drift"]

/-- **The path may name a later fault**: an engine finds the layout of the first sample for the
second one, which does not lay out, and fails at the third member. -/
theorem Engine.later_fault_of_layout_drift :
    ((layout .lp64 (.aggregate drift)).run (make [] none)).1 =
        .error (.layout ⟨.incompleteType "sensor", ["drift", "rest", "third"]⟩) ∧
      ¬ LaysOut .lp64 (.aggregate (driftRest.holding
        [⟨.aggregate (sample (.bool true)), some "second", .none⟩])) := by
  refine ⟨by rfl, ?_⟩
  rintro ⟨r, hr⟩
  have hfails : (layoutOf .lp64 (.aggregate (driftRest.holding
      [⟨.aggregate (sample (.bool true)), some "second", .none⟩]))).isOk = false := by
    decide +kernel
  rw [hr] at hfails
  cases hfails

end RecordLayout
