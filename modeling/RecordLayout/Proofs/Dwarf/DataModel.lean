import RecordLayout.Dwarf.Verify
import RecordLayout.Proofs.Dwarf.Building
import RecordLayout.Proofs.Layout.EngineDataModel

/-!
# A binary has its own data model

Every primitive that a builder makes has a size that was recorded, or for a pointer that of an
address of its unit, and no member that it makes is packed.  So a recorded type brings its own
sizes, and its layout takes only the rules for alignments and bitfields from a profile.  A
verification under a profile with another data model comes to the same report, but for the name of
the profile, or to the very same failure.

## Main results

* `isSelfContained_of_builtEntry`: what is built for one entry brings its own sizes;
* `isSelfContained_of_buildType`: so does every type that is built;
* `verify_withDataModel`: the data model of the profile does not show in a verification.
-/

namespace RecordLayout.Dwarf

variable {info : Info} {d : Die} {od : Option Die} {node : TypeNode}

/-! ## Recorded types -/

/-- A scalar without a size is incomplete. -/
theorem isSelfContained_scalarOf (name : String) (d : Die) :
    (scalarOf name d).IsSelfContained := by
  unfold scalarOf
  split
  · exact .incomplete _
  · exact .primitive rfl

theorem isSelfContained_addDimension (count : Quantity) (h : node.IsSelfContained) :
    (addDimension count node).IsSelfContained := by
  unfold addDimension
  split
  · cases h with
    | array element => exact .array element
  · exact .array h

theorem isSelfContained_arrayOf {element : TypeNode} (helement : element.IsSelfContained)
    (h : arrayOf d element = .ok node) : node.IsSelfContained := by
  unfold arrayOf at h
  split at h
  · obtain rfl := Except.ok.inj h
    exact .flexibleArray helement
  · split at h
    · cases h
    · rename_i first inner _ dims _
      have hinner : (if dims.isEmpty = true then element
          else .array element (dims.map Quantity.constant)).IsSelfContained := by
        split
        · exact helement
        · exact .array helement
      dsimp only at h
      split at h
      · obtain rfl := Except.ok.inj h
        exact .flexibleArray hinner
      · obtain rfl := Except.ok.inj h
        exact isSelfContained_addDimension _ hinner

/-- No attributes of an entry make it packed. -/
theorem packed_attributesOf (d : Die) : (attributesOf d).packed = false := by
  unfold attributesOf
  split
  · split <;> rfl
  · rfl

theorem isSelfContained_of_known
    (h : info.Known (fun _ => TypeNode.IsSelfContained) od node) : node.IsSelfContained := by
  cases od with
  | none => exact h ▸ .incomplete _
  | some d => exact h

/-- Members are built unpacked, of types that bring their own sizes. -/
theorem forall_isSelfContained_of_builtMembers {cs : List Die} {ms : List Member}
    (h : List.Forall₂ (BuiltMember info (info.Known fun _ => TypeNode.IsSelfContained)) cs ms) :
    ∀ x ∈ ms, x.attributes.packed = false ∧ x.type.IsSelfContained := by
  induction h with
  | nil => simp
  | cons hx _ ih =>
    refine List.forall_mem_cons.mpr ⟨?_, ih⟩
    cases hx with
    | plain known bits => exact ⟨packed_attributesOf _, isSelfContained_of_known known⟩
    | bitfield known bits =>
      cases isSelfContained_of_known known with
      | primitive size => exact ⟨packed_attributesOf _, .bitfield size⟩

/-- **What is built for one entry** brings its own sizes when the types that it refers to do. -/
theorem isSelfContained_of_builtEntry
    (h : BuiltEntry info (info.Known fun _ => TypeNode.IsSelfContained) d node) :
    node.IsSelfContained := by
  cases h with
  | through tag known => exact isSelfContained_of_known known
  | base tag => exact isSelfContained_scalarOf _ d
  | enumeration tag => exact isSelfContained_scalarOf _ d
  | pointer tag => exact .primitive rfl
  | array tag known array_eq => exact isSelfContained_arrayOf (isSelfContained_of_known known) array_eq
  | declared tag declaration => exact .incomplete _
  | aggregate tag definition members_built =>
    have hmembers := forall_isSelfContained_of_builtMembers members_built
    exact .aggregate (fun x hx => (hmembers x hx).1) fun x hx => (hmembers x hx).2
  | other tag aggregate => exact .incomplete _

/-- **Every type that is built** brings its own sizes. -/
theorem isSelfContained_of_buildType {typeName : String} {t : RecordedType}
    (h : ((buildType info typeName).run .fresh).1 = .ok t) : t.node.IsSelfContained := by
  have hbuilt : Built info (fun _ => TypeNode.IsSelfContained) [] (buildType info typeName)
      fun t => t.node.IsSelfContained := by
    refine (Built.check _).bind fun root hroot => ?_
    have hod : ∀ d ∈ some (info.canonical root), d ∈ info.dies := by
      rintro _ ⟨⟩
      exact Info.canonical_mem (Info.aggregate_of_findRoot hroot).1
    refine (built_buildTo (fun _ _ _ _ => isSelfContained_of_builtEntry)
      (fun _ _ _ _ _ _ hnode => hnode) _ hod []).bind fun node hnode => ?_
    exact (Built.check _).bind fun members _ => .pure hnode
  exact (hbuilt .fresh Builder.sound_fresh rfl).2.2 t h

/-! ## Verifications -/

/-- Members are compared by the direction in which storage is filled, which stays. -/
theorem compareMembers_withDataModel (p q : Profile) (table : NameTable) (ms : List RecordedMember) :
    compareMembers (p.withDataModel q) table ms = compareMembers p table ms := by
  induction ms with
  | nil => rfl
  | cons m ms ih =>
    unfold compareMembers
    rw [ih]
    rfl

/-- A report names the profile. -/
theorem compareType_withDataModel (p q : Profile) (t : RecordedType) (layout : LayoutResult) :
    compareType (p.withDataModel q) t layout =
      (compareType p t layout).map fun report => { report with profile := q.name } := by
  simp only [compareType, compareMembers_withDataModel]
  cases layout.nameTable <;> rfl

/-- A verification builds a type, lays it out and compares the two. -/
theorem outcome_verify (info : Info) (typeName : String) (p : Profile) (engine : Engine) :
    (verify info typeName p engine).outcome =
      ((buildType info typeName).run .fresh).1 >>= fun t =>
        ((Engine.layout p t.node).run engine).1 >>= compareType p t := by
  unfold verify
  rcases (buildType info typeName).run .fresh with ⟨f | t, builder⟩ <;> rfl

/-- A recorded type that brings its own sizes is laid out and compared alike. -/
theorem layout_bind_compareType (p q : Profile) {t : RecordedType} (h : t.node.IsSelfContained)
    (channels : Channels) (limit : Option Int) :
    ((Engine.layout (p.withDataModel q) t.node).run (Engine.make channels limit)).1 >>=
        compareType (p.withDataModel q) t =
      (((Engine.layout p t.node).run (Engine.make channels limit)).1 >>= compareType p t).map
        fun report => { report with profile := q.name } := by
  have htwins := Engine.inTwins_layout p q h _ _ (Engine.twins_make channels channels limit)
  rw [Except.rel_eq.mp htwins.1]
  cases ((Engine.layout p t.node).run (Engine.make channels limit)).1 with
  | error f => rfl
  | ok layout => exact compareType_withDataModel p q t layout

/-- **A binary has its own data model**: verifications under two profiles that agree on the rules for
alignments and bitfields fail alike, or come to reports that differ in nothing but the name of the
profile. -/
theorem verify_withDataModel (info : Info) (typeName : String) (p q : Profile)
    (channels : Channels) (limit : Option Int) :
    (verify info typeName (p.withDataModel q) (Engine.make channels limit)).outcome =
      (verify info typeName p (Engine.make channels limit)).outcome.map
        fun report => { report with profile := q.name } := by
  rw [outcome_verify, outcome_verify]
  cases hbuilt : ((buildType info typeName).run .fresh).1 with
  | error f =>
    -- What cannot be built fails before any profile is asked.
    rfl
  | ok t =>
    exact layout_bind_compareType p q (isSelfContained_of_buildType hbuilt) channels limit

end RecordLayout.Dwarf
