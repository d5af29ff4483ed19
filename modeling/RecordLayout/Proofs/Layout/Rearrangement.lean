import RecordLayout.Proofs.Layout.EngineSaving
import RecordLayout.Proofs.Layout.Fault
import RecordLayout.Proofs.Layout.Progress

/-!
# Suggestions rearrange the members

A suggestion for a struct without bitfields puts its members into another order and changes nothing
else: what a member takes does not depend on where it comes.  The order is that of falling
alignment, then of falling size, then the declared one, with an open-ended array last, so a
suggestion for members in a suggested order is the order that they have.

The extents are looked up by the keys of the members.  An unnamed member has its position for a key,
which is another one after a suggestion; keys are distinct in every order when the names are, and
none of them is spelled like such a key.

## Main definitions

* `MemberLayout.shape` is what the layout shows of a member wherever it comes;
* `Suggestion.Rearranges` says that a suggestion is a stable order of the declared members.

## Main results

* `nodup_keysFrom`: names that make the keys distinct in every order;
* `rearranges_of_suggestReorder`, `suggestReorder_again`: what a plain suggestion is, and that it is
  its own suggestion;
* `Engine.exists_suggestReorder`: an engine makes the plain suggestion;
* `Engine.suggestReorder_rearranges`: what the suggestion of an engine is.  A struct that lays out
  only because an equal key answers for one of its members may have none
  (`Engine.suggestReorder_locker`).
-/

namespace RecordLayout

variable {p : Profile} {cap : Option Int}

/-! ## Keys -/

section Keys

variable {members : List Member} {index : Nat} {key : String}

/-- The key of a member is its name or that of its position. -/
theorem mem_keysFrom (h : key ∈ keysFrom index members) :
    (∃ x ∈ members, x.name = some key) ∨ ∃ i, index ≤ i ∧ key = s!"<anonymous {i}>" := by
  induction members generalizing index with
  | nil => cases h
  | cons x xs ih =>
    rcases List.mem_cons.mp h with hkey | h
    · cases hname : x.name with
      | some name =>
        left
        refine ⟨x, List.mem_cons_self, ?_⟩
        rw [hkey, memberKey, hname]
      | none =>
        right
        refine ⟨index, Nat.le_refl index, ?_⟩
        rw [hkey, memberKey, hname]
    · rcases ih h with ⟨y, hy, hname⟩ | ⟨i, hi, hkey⟩
      · exact .inl ⟨y, List.mem_cons_of_mem x hy, hname⟩
      · exact .inr ⟨i, by omega, hkey⟩

theorem anonymous_inj {i j : Nat} (h : s!"<anonymous {i}>" = s!"<anonymous {j}>") : i = j := by
  apply Nat.repr_inj.mp
  simpa using h

/-- A name that does not begin with a bracket is not spelled like the key of an unnamed member. -/
theorem ne_anonymous {name : String} (h : name.toList.head? ≠ some '<') (n : Nat) :
    name ≠ s!"<anonymous {n}>" := by
  rintro rfl
  rw [String.append_assoc, String.toList_append] at h
  exact h rfl

/-- Names that do not begin with a bracket are not spelled like the keys of unnamed members. -/
theorem name_ne_anonymous
    (h : ∀ x ∈ members, ∀ name ∈ x.name, name.toList.head? ≠ some '<') :
    ∀ x ∈ members, ∀ n : Nat, x.name ≠ some s!"<anonymous {n}>" :=
  fun x hx n hname => ne_anonymous (h x hx _ hname) n rfl

/-- **Names that make the keys distinct**, wherever the unnamed members come. -/
theorem nodup_keysFrom (hnames : (members.filterMap (·.name)).Nodup)
    (hplain : ∀ x ∈ members, ∀ n : Nat, x.name ≠ some s!"<anonymous {n}>") :
    (keysFrom index members).Nodup := by
  induction members generalizing index with
  | nil => exact List.nodup_nil
  | cons x xs ih =>
    rw [List.forall_mem_cons] at hplain
    have hrest : (xs.filterMap (·.name)).Nodup :=
      hnames.sublist ((List.sublist_cons_self x xs).filterMap _)
    refine List.nodup_cons.mpr ⟨fun hmem => ?_, ih hrest hplain.2⟩
    rcases mem_keysFrom hmem with ⟨y, hy, hname⟩ | ⟨i, hi, hkey⟩
    · cases hx : x.name with
      | some name =>
        rw [memberKey, hx] at hname
        rw [List.filterMap_cons_some hx, List.nodup_cons] at hnames
        exact hnames.1 (List.mem_filterMap.mpr ⟨y, hy, hname⟩)
      | none =>
        rw [memberKey, hx] at hname
        exact hplain.2 y hy index hname
    · cases hx : x.name with
      | some name =>
        rw [memberKey, hx] at hkey
        exact hplain.1 i (hx.trans (congrArg some hkey))
      | none =>
        rw [memberKey, hx] at hkey
        have := anonymous_inj hkey
        omega

end Keys

/-! ## What a member shows wherever it comes -/

/-- What the layout of a struct shows of a member wherever the member comes. -/
structure MemberShape where
  name : Option String
  isFlexible : Bool
  size : Int
  alignment : Int
  deriving DecidableEq, Repr

/-- The shape of a placed member. -/
def MemberLayout.shape (m : MemberLayout) : MemberShape :=
  ⟨m.name, m.isFlexible, m.size, m.alignment⟩

/-- The shape of a measured member. -/
def PlacedMember.shape (x : PlacedMember) : MemberShape :=
  ⟨x.member.name, x.member.isFlexible, x.extent.size, x.extent.alignment⟩

/-- The reason for a member to stand before another one, where they are declared at the positions
`i` and `j`: the other one is open-ended, or it has a smaller alignment, or the same and a smaller
size, or the same of both and is declared later. -/
def MemberShape.RanksBefore (x y : MemberShape) (i j : Nat) : Prop :=
  x.isFlexible = false ∧ (y.isFlexible = true ∨ y.alignment < x.alignment ∨
    y.alignment = x.alignment ∧ (y.size < x.size ∨ y.size = x.size ∧ i < j))

@[simp] theorem MemberLayout.canonical_shape (m : MemberLayout) : m.canonical.shape = m.shape := by
  simp [shape]

/-- The shapes of the direct members. -/
def LayoutResult.shapes (r : LayoutResult) : List MemberShape := r.direct.map MemberLayout.shape

@[simp] theorem LayoutResult.canonical_shapes (r : LayoutResult) : r.canonical.shapes = r.shapes := by
  rw [shapes, through_direct, List.map_map, shapes]
  exact List.map_congr_left fun m _ => m.canonical_shape

/-- **What the members of a struct show** is what they take, in their order. -/
theorem shapes_of_finish {a : Aggregate} {r : LayoutResult} {fs : List (Fitted p cap)}
    (hr : a.finish (placeAll fs) = .ok r) : r.shapes = fs.map fun f => f.toPlaced.shape := by
  rw [LayoutResult.shapes, direct_of_finish hr, List.map_map]
  exact map_placed_pushAll MemberLayout.shape (fun f => f.toPlaced.shape) (fun _ _ _ _ => rfl) .start fs

/-- A suggestion for an aggregate with the layout `r` is a stable order of its members: `order` has
the positions of the declared members, as the suggestion puts them. -/
structure Suggestion.Rearranges (s : Suggestion) (a : Aggregate) (r : LayoutResult)
    (order : List Nat) : Prop where
  perm : order.Perm (List.range a.members.length)
  members : s.members.map some = order.map (a.members[·]?)
  shapes : s.layout.shapes.map some = order.map (r.shapes[·]?)
  sorted : order.Pairwise fun i j =>
    ∀ x ∈ r.shapes[i]?, ∀ y ∈ r.shapes[j]?, x.RanksBefore y i j
  alignment : s.layout.alignment = r.alignment
  declaredSize : s.declaredSize = r.size

/-! ## Plain suggestions -/

section Plain

variable {a : Aggregate} {r : LayoutResult} {s : Suggestion} {fs : List (Fitted p cap)}

/-- Members in the suggested order are in the suggested order. -/
theorem suggested_suggested (fs : List (Fitted p cap)) : suggested (suggested fs) = suggested fs := by
  have hsorted : (movable fs).Pairwise fun f g => f.toPlaced.before g.toPlaced = true :=
    List.pairwise_mergeSort (fun f g h => before_trans f.toPlaced g.toPlaced h.toPlaced)
      (fun f g => before_total f.toPlaced g.toPlaced) _
  have hmovable : (suggested fs).filter (fun f => !f.isFlexible) = movable fs := by
    have hkept : (movable fs).filter (fun f => !f.isFlexible) = movable fs :=
      List.filter_eq_self.mpr fun f hf => by rw [(mem_movable.mp hf).2]; rfl
    have hdropped : (trailing fs).filter (fun f => !f.isFlexible) = [] :=
      List.filter_eq_nil_iff.mpr fun f hf => by simp [(mem_trailing.mp hf).2]
    rw [suggested, List.filter_append, hkept, hdropped, List.append_nil]
  have htrailing : trailing (suggested fs) = trailing fs := by
    have hdropped : (movable fs).filter Fitted.isFlexible = [] :=
      List.filter_eq_nil_iff.mpr fun f hf => by simp [(mem_movable.mp hf).2]
    have hkept : (trailing fs).filter Fitted.isFlexible = trailing fs :=
      List.filter_eq_self.mpr fun f hf => (mem_trailing.mp hf).2
    rw [trailing, suggested, List.filter_append, hdropped, hkept, List.nil_append]
  rw [suggested, movable, hmovable, htrailing, List.mergeSort_of_pairwise hsorted, suggested]

/-- **A struct without bitfields that lays out has a suggestion**, if its keys are distinct. -/
theorem exists_suggestReorder (hkind : a.kind = .struct)
    (hbits : ∀ x ∈ a.members, x.isBitfield = false) (hr : layoutOf p (.aggregate a) = .ok r)
    (hkeys : (keysFrom 0 a.members).Nodup) :
    ∃ s, suggestReorder (layoutOf p) (.aggregate a) = .ok (some s) := by
  obtain ⟨cap, hcap, hlast, fs, hfs, hfinish⟩ := (layoutOf_eq_ok_iff hkind hbits).mp hr
  obtain ⟨alignment, halignment, -, -⟩ := size_of_finish hfinish
  have hany : a.members.any Member.isBitfield = false :=
    List.any_eq_false.mpr fun x hx => by simp [hbits x hx]
  rw [← hfs] at hkeys hbits hlast
  rw [List.forall_mem_map] at hbits
  obtain ⟨best, hbest, -, -⟩ := layoutOf_of_perm hkind hbits hcap halignment (suggested_perm fs)
    (onlyLastFlexible_suggested hlast.eq_append.2)
  have horder := suggestedOrder_eq (nodup_keys_direct hfinish hkeys) hfinish
  rw [hfs] at horder
  rw [← horder] at hbest
  rw [suggestReorder_struct _ hkind hany]
  refine ⟨_, Except.bind_eq_ok.mpr ⟨r, hr, Except.bind_eq_ok.mpr ⟨best, hbest, rfl⟩⟩⟩

theorem alignment_of_finish {seq : Sequenced} (hr : a.finish seq = .ok r) :
    a.alignmentFrom seq.alignment = .ok r.alignment := by
  obtain ⟨alignment, halignment, rfl⟩ := Except.map_eq_ok.mp hr
  exact halignment

/-- The reason for a fitted member to stand before another is that of its shape, where only the last
member may be open-ended. -/
theorem ranksBefore_of_standsBefore (hlast : OnlyLastFlexible (fs.map Fitted.member)) {i j : Nat}
    {f g : Fitted p cap} (hf : fs[i]? = some f) (hg : fs[j]? = some g)
    (h : StandsBefore f.toPlaced g.toPlaced i j) :
    f.toPlaced.shape.RanksBefore g.toPlaced.shape i j := by
  rcases h with ⟨hf', hg'⟩ | ⟨hf', hg', hlt⟩ | ⟨hf', hg', hbefore, htie⟩
  · exact ⟨hf', .inl hg'⟩
  · obtain ⟨hj, rfl⟩ := List.getElem?_eq_some_iff.mp hg
    obtain ⟨hi, rfl⟩ := List.getElem?_eq_some_iff.mp hf
    have hmem : (fs[i]).member ∈ (fs.map Fitted.member).dropLast := by
      refine List.mem_iff_getElem.mpr ⟨i, by simp; omega, ?_⟩
      rw [List.getElem_dropLast, List.getElem_map]
    exact absurd hf' (by rw [Fitted.toPlaced, hlast _ hmem]; decide)
  · refine ⟨hf', .inr ?_⟩
    simp only [PlacedMember.before, Bool.or_eq_true, Bool.and_eq_true, decide_eq_true_eq,
      beq_iff_eq] at hbefore htie
    simp only [PlacedMember.shape]
    omega

/-- **A plain suggestion is a stable order of the members.** -/
theorem rearranges_of_suggestReorder (hkeys : (keysFrom 0 a.members).Nodup)
    (h : suggestReorder (layoutOf p) (.aggregate a) = .ok (some s))
    (hr : layoutOf p (.aggregate a) = .ok r) : ∃ order, s.Rearranges a r order := by
  obtain ⟨cap, r', fs, -, hkind, hbits, hfs, -, hr', hfinish, hdeclared, hmembers, hfinish'⟩ :=
    exists_fitted_of_suggestReorder hkeys h
  obtain rfl : r' = r := Except.ok.inj (hr'.symm.trans hr)
  obtain ⟨order, hperm, hmap, hsorted⟩ := exists_positions_arranged (fs.map Fitted.toPlaced)
  have hlast : OnlyLastFlexible (fs.map Fitted.member) := by
    have hbits' : ∀ x ∈ a.members, x.isBitfield = false := by
      rw [← hfs]
      exact List.forall_mem_map.mpr hbits
    obtain ⟨_, -, hlast, -⟩ := (layoutOf_eq_ok_iff hkind hbits').mp hr
    rwa [hfs]
  have hview {γ : Type} (view : PlacedMember → γ) :
      ((suggested fs).map fun f => view f.toPlaced).map some =
        order.map ((fs.map fun f => view f.toPlaced)[·]?) := by
    have hview := congrArg (List.map (Option.map view)) hmap
    rw [arranged_toPlaced] at hview
    simpa [List.map_map, Function.comp_def] using hview
  refine ⟨order, ?_, ?_, ?_, ?_, ?_, hdeclared⟩
  · rwa [List.length_map, ← List.length_map Fitted.member, hfs] at hperm
  · rw [hmembers, ← hfs]
    exact hview (·.member)
  · rw [shapes_of_finish hfinish', shapes_of_finish hfinish]
    exact hview PlacedMember.shape
  · refine hsorted.imp fun {i j} hstands x hx y hy => ?_
    rw [shapes_of_finish hfinish, List.getElem?_map] at hx hy
    obtain ⟨f, hf, rfl⟩ := Option.map_eq_some_iff.mp hx
    obtain ⟨g, hg, rfl⟩ := Option.map_eq_some_iff.mp hy
    apply ranksBefore_of_standsBefore hlast hf hg
    exact hstands _ _ (by rw [List.getElem?_map, hf]; rfl) (by rw [List.getElem?_map, hg]; rfl)
  · have halignment' := alignment_of_finish hfinish'
    rw [alignment_placeAll_of_perm (suggested_perm fs)] at halignment'
    exact Except.ok.inj (halignment'.symm.trans (alignment_of_finish hfinish))

/-- **A suggestion is its own suggestion**, and saves nothing more. -/
theorem suggestReorder_again (hkeys : (keysFrom 0 a.members).Nodup)
    (h : suggestReorder (layoutOf p) (.aggregate a) = .ok (some s))
    (hkeys' : (keysFrom 0 s.members).Nodup) :
    suggestReorder (layoutOf p) (.aggregate { a with members := s.members }) =
      .ok (some ⟨s.members, s.layout, s.layout.size⟩) := by
  obtain ⟨_, _, ⟨⟩, -, -, -, -, hlayout, -⟩ := suggestReorder_eq_ok h
  obtain ⟨cap, -, fs, -, hkind, hbits, -, -, -, -, -, hmembers, hfinish⟩ :=
    exists_fitted_of_suggestReorder hkeys h
  have hbits' : s.members.any Member.isBitfield = false := by
    rw [hmembers, List.any_eq_false, List.forall_mem_map]
    intro f hf
    simp [hbits f ((suggested_perm fs).mem_iff.mp hf)]
  have horder : suggestedOrder s.layout s.members = s.members := by
    rw [hmembers] at hkeys'
    have horder := suggestedOrder_eq (nodup_keys_direct hfinish hkeys') hfinish
    rwa [suggested_suggested, ← hmembers] at horder
  rw [suggestReorder_struct (a := { a with members := s.members }) _ hkind hbits']
  refine Except.bind_eq_ok.mpr ⟨s.layout, hlayout, ?_⟩
  dsimp only
  rw [horder]
  exact Except.bind_eq_ok.mpr ⟨s.layout, hlayout, rfl⟩

end Plain

/-! ## Suggestions of an engine -/

namespace Engine

variable {channels : Channels} {limit : Option Int} {a : Aggregate} {r : LayoutResult}
  {s : Suggestion}

/-- **An engine makes the plain suggestion**, whatever it was asked before, unless its limit is
negative.  Its layouts are the plain ones up to the flags that they show. -/
theorem exists_suggestReorder (hlimit : ∀ n ∈ limit, 0 ≤ n)
    (h : suggestReorder (layoutOf p) (.aggregate a) = .ok (some s)) (channels : Channels)
    (calls : List Call) :
    ∃ s', ((suggestReorder (layout p) (.aggregate a)).run ((make channels limit).replay calls)).1 =
        .ok (some s') ∧ s'.members = s.members ∧ s'.layout.canonical = s.layout.canonical ∧
      s'.declaredSize = s.declaredSize := by
  obtain ⟨_, r, ⟨⟩, hkind, hbits, hr, hmembers, hbest, hdeclared⟩ :=
    RecordLayout.suggestReorder_eq_ok h
  have hany : a.members.any Member.isBitfield = false :=
    List.any_eq_false.mpr fun x hx => by simp [hbits x hx]
  obtain ⟨r', hr', hcanonical⟩ := exists_layout hlimit hr channels calls
  obtain ⟨best, hbest', hcanonical'⟩ := exists_layout hlimit hbest channels
    (calls ++ [.layout p (.aggregate a)])
  rw [← after_replay, after] at hbest'
  refine ⟨⟨s.members, best, r'.size⟩, ?_, rfl, hcanonical', ?_⟩
  · rw [suggestReorder_struct _ hkind hany, EngineM.run_bind]
    generalize (layout p (.aggregate a)).run ((make channels limit).replay calls) = first
      at hr' hbest' ⊢
    obtain ⟨_, e⟩ := first
    obtain rfl : _ = Except.ok r' := hr'
    dsimp only at hbest' ⊢
    rw [suggestedOrder_congr a.members hcanonical, ← hmembers, EngineM.run_bind]
    generalize (layout p (.aggregate { a with members := s.members })).run e = second
      at hbest' ⊢
    obtain ⟨_, e'⟩ := second
    obtain rfl : _ = Except.ok best := hbest'
    rfl
  · have hsize := congrArg LayoutResult.size hcanonical
    rw [LayoutResult.through_size, LayoutResult.through_size] at hsize
    rw [hdeclared]
    exact hsize

/-- A suggestion is seen in canonical forms. -/
theorem rearranges_congr {s s' : Suggestion} {order : List Nat} (h : s.Rearranges a r order)
    (hmembers : s'.members = s.members) (hlayout : s'.layout.canonical = s.layout.canonical)
    (hdeclared : s'.declaredSize = s.declaredSize) : s'.Rearranges a r order where
  perm := h.perm
  members := by rw [hmembers, h.members]
  shapes := by rw [← LayoutResult.canonical_shapes, hlayout, LayoutResult.canonical_shapes, h.shapes]
  sorted := h.sorted
  alignment := by
    have halignment := congrArg LayoutResult.alignment hlayout
    rw [LayoutResult.through_alignment, LayoutResult.through_alignment] at halignment
    rw [halignment, h.alignment]
  declaredSize := by rw [hdeclared, h.declaredSize]

/-- **A suggestion rearranges the members.**  For a struct without bitfields that has a plain layout
and whose names are distinct and not spelled like the key of an unnamed member, an engine that was
asked anything before makes a suggestion; it is a stable order of the members by falling alignment
and falling size, in which each of them takes what it took, and the struct keeps its alignment.
Asked for a suggestion for the suggested members, any engine answers with the same order and saves
nothing. -/
theorem suggestReorder_rearranges (hlimit : ∀ n ∈ limit, 0 ≤ n) (hkind : a.kind = .struct)
    (hbits : ∀ x ∈ a.members, x.isBitfield = false)
    (hnames : (a.members.filterMap (·.name)).Nodup)
    (hplain : ∀ x ∈ a.members, ∀ n : Nat, x.name ≠ some s!"<anonymous {n}>")
    (hr : layoutOf p (.aggregate a) = .ok r) (channels : Channels) (calls : List Call) :
    ∃ s order, ((suggestReorder (layout p) (.aggregate a)).run
        ((make channels limit).replay calls)).1 = .ok (some s) ∧ s.Rearranges a r order ∧
      ∀ (channels' : Channels) (limit' : Option Int) (calls' : List Call),
        (∀ n ∈ limit', 0 ≤ n) →
        ∃ s', ((suggestReorder (layout p) (.aggregate { a with members := s.members })).run
            ((make channels' limit').replay calls')).1 = .ok (some s') ∧
          s'.members = s.members ∧ s'.bytesSaved = 0 := by
  have hkeys : (keysFrom 0 a.members).Nodup := nodup_keysFrom hnames hplain
  obtain ⟨best, hbest⟩ := RecordLayout.exists_suggestReorder hkind hbits hr hkeys
  obtain ⟨order, horder⟩ := rearranges_of_suggestReorder hkeys hbest hr
  obtain ⟨s, hs, hmembers, hlayout, hdeclared⟩ := exists_suggestReorder hlimit hbest channels calls
  refine ⟨s, order, hs, rearranges_congr horder hmembers hlayout hdeclared, ?_⟩
  intro channels' limit' calls' hlimit'
  rw [hmembers]
  -- The names are the same in every order, so the keys are distinct again.
  have hperm : best.members.Perm a.members := by
    obtain ⟨_, r', ⟨⟩, -, -, -, horder, -, -⟩ := RecordLayout.suggestReorder_eq_ok hbest
    rw [horder]
    exact suggestedOrder_perm r' a.members
  have hkeys' : (keysFrom 0 best.members).Nodup := by
    apply nodup_keysFrom
    · exact (hperm.filterMap _).nodup_iff.mpr hnames
    · exact fun x hx => hplain x (hperm.mem_iff.mp hx)
  have hagain := suggestReorder_again hkeys hbest hkeys'
  obtain ⟨s', hs', hmembers', hlayout', hdeclared'⟩ :=
    exists_suggestReorder hlimit' hagain channels' calls'
  refine ⟨s', hs', hmembers', ?_⟩
  have hsize := congrArg LayoutResult.size hlayout'
  rw [LayoutResult.through_size, LayoutResult.through_size] at hsize
  rw [Suggestion.bytesSaved, Suggestion.optimizedSize, hsize, hdeclared', Int.sub_self]
  rfl

/-- A satchel has two members of one size, an unnamed one and open-ended data. -/
def satchel : Aggregate where
  kind := .struct
  members :=
    [⟨.primitive ⟨"char", some (.int 1), none⟩, some "flag", .none⟩,
     ⟨.primitive ⟨"short", some (.int 2), none⟩, some "left", .none⟩,
     ⟨.aggregate
       { kind := .struct
         members := [⟨.primitive ⟨"int", some (.int 4), none⟩, some "code", .none⟩]
         name := none
         pack := none
         attributes := .none
         origin := .written ["satchel", "2"] }, none, .none⟩,
     ⟨.primitive ⟨"short", some (.int 2), none⟩, some "right", .none⟩,
     ⟨.flexibleArray (.primitive ⟨"char", some (.int 1), none⟩), some "data", .none⟩]
  name := some "satchel"
  pack := none
  attributes := .none
  origin := .written ["satchel"]

/-- A satchel is rearranged by an engine that keeps one layout and has answered under another
profile; an engine that keeps none has nothing to add. -/
theorem suggestReorder_rearranges_satchel :
    ∃ r s order, layoutOf .lp64 (.aggregate satchel) = .ok r ∧
      ((suggestReorder (layout .lp64) (.aggregate satchel)).run ((make [] (some 1)).replay
        [.layout .ilp32 (.aggregate satchel)])).1 = .ok (some s) ∧ s.Rearranges satchel r order ∧
      ∃ s', ((suggestReorder (layout .lp64) (.aggregate { satchel with members := s.members })).run
          (make [] (some 0))).1 = .ok (some s') ∧ s'.members = s.members ∧ s'.bytesSaved = 0 := by
  have hmade : (layoutOf .lp64 (.aggregate satchel)).isOk = true := by decide +kernel
  obtain ⟨r, hr⟩ := Except.exists_of_isOk hmade
  have hlimit : ∀ n ∈ some (1 : Int), 0 ≤ n := by decide
  obtain ⟨s, order, hs, horder, hagain⟩ := suggestReorder_rearranges hlimit rfl (by decide)
    (by decide) (name_ne_anonymous (by decide)) hr [] [.layout .ilp32 (.aggregate satchel)]
  exact ⟨r, s, order, hr, hs, horder, hagain [] (some 0) [] (by decide)⟩

/-- A locker holds a sample of one number, and after it one whose number is given by a flag and that
is aligned to eight bytes. -/
def locker : Aggregate where
  kind := .struct
  members :=
    [⟨.aggregate (sample (.int 1)), some "first", .none⟩,
     ⟨.aggregate (sample (.bool true)), some "second", ⟨false, [8]⟩⟩]
  name := some "locker"
  pack := none
  attributes := .none
  origin := .written ["locker"]

/-- **An engine may lay out a struct and have no suggestion for it.**  A locker is laid out, since
the second sample is answered with the layout of the first one.  The suggestion puts the second
sample first, where nothing answers for it: not in an engine that keeps one layout, and not in a
fresh one that is asked for a suggestion for the suggested members. -/
theorem suggestReorder_locker :
    (locker.kind = .struct ∧ (∀ x ∈ locker.members, x.isBitfield = false) ∧
      (locker.members.filterMap (·.name)).Nodup ∧
      ∀ x ∈ locker.members, ∀ n : Nat, x.name ≠ some s!"<anonymous {n}>") ∧
    (∀ limit, limit = none ∨ limit = some 1 →
      ((layout .lp64 (.aggregate locker)).run (make [] limit)).1.toOption.map
        (fun r => (r.size, r.alignment)) = some (16, 8)) ∧
    ((suggestReorder (layout .lp64) (.aggregate locker)).run (make [] (some 1))).1 =
      .error (.layout ⟨.arrayDimension (.bool true), ["locker", "second", "x"]⟩) ∧
    ∃ s, ((suggestReorder (layout .lp64) (.aggregate locker)).run (make [] none)).1 =
        .ok (some s) ∧
      ((suggestReorder (layout .lp64) (.aggregate { locker with members := s.members })).run
          (make [] none)).1 =
        .error (.layout ⟨.arrayDimension (.bool true), ["locker", "second", "x"]⟩) := by
  refine ⟨⟨rfl, by decide, by decide, name_ne_anonymous (by decide)⟩, ?_, ?_, ?_⟩
  · rintro _ (rfl | rfl) <;> decide +kernel
  · cbv
  · have hmade : ((suggestReorder (layout .lp64) (.aggregate locker)).run
        (make [] none)).1.toOption.map (Option.map (·.members)) =
          some (some locker.members.reverse) := by
      cbv
    obtain ⟨o, ho, hmembers⟩ := Option.map_eq_some_iff.mp hmade
    obtain ⟨s, rfl, -⟩ := Option.map_eq_some_iff.mp hmembers
    have hreversed : s.members = locker.members.reverse := Option.some.inj hmembers
    refine ⟨s, Except.toOption_eq_some.mp ho, ?_⟩
    rw [hreversed]
    cbv

end Engine

end RecordLayout
