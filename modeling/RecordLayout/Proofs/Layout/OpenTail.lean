import RecordLayout.Proofs.Layout.EngineSaving
import RecordLayout.Proofs.Layout.Listing

/-!
# Open-ended tails and the suggested order

A type may end in an open-ended array without being one: the array can be the last member of a
struct, of a struct that is the last member of a struct, and so on.  Whatever a layout places after
such a member lies behind data that has no end.

The suggestion keeps an open-ended array last, but looks at the type of the member alone.  A struct
that ends in one is sorted as any other member is, by its alignment and its size.  It therefore
stays last exactly when no other member has to come after it.

## Main definitions

* `TypeNode.endsOpen` says whether a type ends in an open-ended array;
* `Suggestion.SplitsAt` says what comes before a member in a suggestion and what comes after it.

## Main results

* `Engine.exists_splitsAt`: what a suggestion places before a member ends before it, and what it
  places after the member starts behind it;
* `Engine.suggestReorder_openTail`: when an open-ended tail stays last.
-/

namespace RecordLayout

/-! ## Types that end in an open-ended array -/

mutual
/-- Whether a type is an open-ended array, or a struct whose last member has a type that ends in
one. -/
def TypeNode.endsOpen : TypeNode → Bool
  | .flexibleArray _ => true
  | .aggregate a => a.endsOpen
  | .primitive _ | .array _ _ | .bitfield _ _ | .incomplete _ | .unknown _ => false

/-- Whether an aggregate ends in an open-ended array. -/
def Aggregate.endsOpen : Aggregate → Bool
  | ⟨.struct, members, _, _, _, _⟩ => lastEndsOpen members
  | ⟨.union, _, _, _, _, _⟩ => false

/-- Whether the last one of some members ends in an open-ended array. -/
def lastEndsOpen : List Member → Bool
  | [] => false
  | [x] => x.endsOpen
  | _ :: x :: xs => lastEndsOpen (x :: xs)

/-- Whether the type of a member ends in an open-ended array. -/
def Member.endsOpen : Member → Bool
  | ⟨type, _, _⟩ => type.endsOpen
end

/-- A member that is an open-ended array ends in one. -/
theorem Member.isFlexible_of_endsOpen_eq_false {x : Member} (h : x.endsOpen = false) :
    x.isFlexible = false := by
  obtain ⟨type, name, attributes⟩ := x
  cases type with
  | flexibleArray e => cases h
  | primitive | aggregate | array | bitfield | incomplete | unknown => rfl

/-! ## The last one of the suggested order -/

/-- An item that does not occur again is the last one when nothing comes after it. -/
theorem getLast?_append_cons_iff {α : Type} {pre post : List α} {x : α} (h : x ∉ post) :
    (pre ++ x :: post).getLast? = some x ↔ post = [] := by
  constructor
  · intro hlast
    cases post with
    | nil => rfl
    | cons y ys =>
      rw [List.append_cons, List.getLast?_append_of_ne_nil _ (List.cons_ne_nil y ys)] at hlast
      exact absurd (List.mem_of_getLast? hlast) h
  · rintro rfl
    exact List.getLast?_concat

section Order

variable {placed before : List PlacedMember} {last : PlacedMember}

/-- The member that comes last in the suggested order of `before ++ [last]`, where no other member
is open-ended: it is `last` exactly when that is open-ended, or when every other member may come
before it. -/
theorem getLast?_arranged_iff (hclosed : ∀ x ∈ before, x.member.isFlexible = false)
    (hne : ∀ x ∈ before, x ≠ last) :
    (arranged (before ++ [last])).getLast? = some last ↔
      last.member.isFlexible = true ∨ ∀ x ∈ before, x.before last = true := by
  obtain ⟨order, hperm, hmap, hsorted⟩ := exists_positions_arranged (before ++ [last])
  rw [List.length_append, List.length_singleton] at hperm
  have hlast : (before ++ [last])[before.length]? = some last := by simp
  have hget {i : Nat} (hi : i < before.length) : (before ++ [last])[i]? = some before[i] := by
    rw [List.getElem?_append_left hi, List.getElem?_eq_getElem hi]
  have hposition : (arranged (before ++ [last])).getLast? = some last ↔
      order.getLast? = some before.length := by
    have hgetLast := congrArg List.getLast? hmap
    rw [List.getLast?_map, List.getLast?_map] at hgetLast
    cases hend : order.getLast? with
    | none =>
      rw [hend, Option.map_none, Option.map_eq_none_iff] at hgetLast
      simp [hgetLast]
    | some i =>
      have hi : i < before.length + 1 :=
        List.mem_range.mp (hperm.mem_iff.mp (List.mem_of_getLast? hend))
      rw [hend, Option.map_some, Option.map_eq_some_iff] at hgetLast
      obtain ⟨x, hx, hat⟩ := hgetLast
      rw [hx]
      constructor
      · intro heq
        obtain rfl := Option.some.inj heq
        rcases Nat.lt_or_eq_of_le (Nat.le_of_lt_succ hi) with hlt | rfl
        · rw [hget hlt] at hat
          exact absurd (Option.some.inj hat).symm (hne _ (List.getElem_mem hlt))
        · rfl
      · intro heq
        obtain rfl := Option.some.inj heq
        rw [hat, hlast]
  obtain ⟨hfirst, hfree⟩ := getLast?_positions_iff hperm hsorted
  rw [hposition]
  constructor
  · intro hend
    by_cases hflexible : last.member.isFlexible = true
    · exact .inl hflexible
    · right
      intro x hx
      obtain ⟨i, hi, rfl⟩ := List.mem_iff_getElem.mp hx
      rcases hfirst hend i hi _ _ (hget hi) hlast with ⟨-, h⟩ | ⟨h, -⟩ | ⟨-, -, hbefore, -⟩
      · exact absurd h hflexible
      · exact absurd h (by simp [hclosed _ hx])
      · exact hbefore
  · intro h
    refine hfree fun i hi hstands => ?_
    have hx := List.getElem_mem hi
    -- A member that comes after the last one has a reason for it.
    rcases hstands _ _ hlast (hget hi) with ⟨-, hopen⟩ | ⟨-, hopen, -⟩ | ⟨hlast', -, -, htie⟩
    · exact absurd hopen (by simp [hclosed _ hx])
    · exact absurd hopen (by simp [hclosed _ hx])
    · rcases h with hflexible | hbefore
      · exact absurd hflexible (by simp [hlast'])
      · exact absurd (htie (hbefore _ hx)) (by omega)

end Order

/-! ## What comes before a member and what comes after it -/

/-- A suggestion comes to a member after those of `pre` and before those of `post`.  Whatever comes
before it ends where it starts or earlier, and whatever comes after it starts where it ends or
later. -/
structure Suggestion.SplitsAt (s : Suggestion) (pre : List Member) (x : Member)
    (post : List Member) : Prop where
  members : s.members = pre ++ x :: post
  direct : ∃ ds m es, s.layout.direct = ds ++ m :: es ∧
    ds.map (·.name) = pre.map (·.name) ∧ m.name = x.name ∧ es.map (·.name) = post.map (·.name) ∧
    (∀ d ∈ ds, d.endOffset ≤ m.byteOffset) ∧ ∀ d ∈ es, m.endOffset ≤ d.byteOffset

/-- Where no member is a bitfield all are reported. -/
theorem filter_isReported_eq_self {members : List Member}
    (h : ∀ x ∈ members, x.isBitfield = false) : members.filter Member.isReported = members :=
  List.filter_eq_self.mpr fun x hx => isReported_value (Member.ne_bitfield (h x hx))

namespace Engine

variable {p : Profile} {channels : Channels} {limit : Option Int} {calls : List Call}
  {a : Aggregate} {s : Suggestion}

/-- **A suggestion places its members in its order**: what comes before a member ends before it, and
what comes after it starts behind it. -/
theorem exists_splitsAt
    (h : ((suggestReorder (layout p) (.aggregate a)).run ((make channels limit).replay calls)).1 =
      .ok (some s)) {x : Member} {pre post : List Member} (hmembers : s.members = pre ++ x :: post) :
    s.SplitsAt pre x post := by
  obtain ⟨hkind, hbits, r, -, horder, -, hbest⟩ := suggestReorder_eq_ok h
  rw [after_replay] at hbest
  have hbits' : ∀ y ∈ s.members, y.isBitfield = false := by
    intro y hy
    rw [horder] at hy
    have hy' := (suggestedOrder_perm r a.members).mem_iff.mp hy
    simpa using List.any_eq_false.mp hbits y hy'
  have hlisted := Aggregate.isListedBy_iff.mp (isListedBy_of_layout hbest)
  have hshape := (wellLaid_of_layout hbest).shape
  rw [filter_isReported_eq_self hbits'] at hlisted
  have hplain : ∀ m ∈ s.layout.direct, m.bits = none := by
    intro m hm
    obtain ⟨i, hi, rfl⟩ := List.mem_iff_getElem.mp hm
    obtain ⟨hlength, hget⟩ := List.forall₂_iff_get.mp hlisted
    have hi' : i < s.members.length := hlength ▸ hi
    exact (hget i hi' hi).1.plain (Member.ne_bitfield (hbits' _ (List.getElem_mem hi')))
  have hordered : s.layout.direct.Pairwise fun m n => m.endOffset ≤ n.byteOffset := by
    refine (hshape.ordered hkind).imp_of_mem fun {m n} hm hn hbefore => ?_
    simp only [MemberLayout.endBit, MemberLayout.startBit, hplain m hm, hplain n hn] at hbefore
    omega
  have hnames := hshape.declared
  dsimp only at hnames
  rw [filter_isReported_eq_self hbits', hmembers, List.map_append, List.map_cons] at hnames
  obtain ⟨ds, rest, hdirect, hds, hrest⟩ := List.map_eq_append_iff.mp hnames
  obtain ⟨m, es, rfl, hm, hes⟩ := List.map_eq_cons_iff.mp hrest
  rw [hdirect, List.pairwise_append, List.pairwise_cons] at hordered
  refine ⟨hmembers, ds, m, es, hdirect, hds, hm, hes, ?_, hordered.2.1.1⟩
  exact fun d hd => hordered.2.2 d hd m List.mem_cons_self

/-- **When an open-ended tail stays last.**  Where the type of the last member ends in an open-ended
array and no other one does, the suggestion has nothing after that member exactly when it is an
open-ended array itself, or when each other member may come before it by alignment and size.
Whatever the suggestion has after it is placed behind its data. -/
theorem suggestReorder_openTail {init : List Member} {last : Member}
    (hmembers : a.members = init ++ [last]) (hopen : last.endsOpen = true)
    (hclosed : ∀ x ∈ init, x.endsOpen = false)
    (h : ((suggestReorder (layout p) (.aggregate a)).run ((make channels limit).replay calls)).1 =
      .ok (some s)) :
    ∃ r, ((layout p (.aggregate a)).run ((make channels limit).replay calls)).1 = .ok r ∧
      ∃ before t, placedMembers r 0 a.members = before ++ [t] ∧ t.member = last ∧
        ∃ pre post, s.SplitsAt pre last post ∧ (pre ++ post).Perm init ∧
          (post = [] ↔ last.isFlexible = true ∨ ∀ x ∈ before, x.before t = true) := by
  obtain ⟨-, -, r, hr, horder, -, -⟩ := suggestReorder_eq_ok h
  have hplaced := map_member_placedMembers r 0 a.members
  rw [hmembers] at hplaced
  obtain ⟨before, ts, hparts, hbefore, hts⟩ := List.map_eq_append_iff.mp hplaced
  obtain ⟨t, rfl, ht⟩ := List.map_eq_singleton_iff.mp hts
  rw [← hmembers] at hparts
  have hperm : s.members.Perm (init ++ [last]) := by
    rw [horder, ← hmembers]
    exact suggestedOrder_perm r a.members
  obtain ⟨pre, post, hsplit⟩ := List.append_of_mem
    (hperm.mem_iff.mpr (List.mem_append_right init List.mem_cons_self))
  have hrest : (pre ++ post).Perm init := by
    rw [hsplit] at hperm
    exact (List.perm_middle.symm.trans (hperm.trans (List.perm_append_singleton last init))).cons_inv
  refine ⟨r, hr, before, t, hparts, ht, pre, post, exists_splitsAt h hsplit, hrest, ?_⟩
  have hinit {x : PlacedMember} (hx : x ∈ before) : x.member.endsOpen = false := by
    apply hclosed
    rw [← hbefore]
    exact List.mem_map_of_mem hx
  have hne : ∀ x ∈ before, x.member ≠ last := by
    rintro x hx rfl
    exact absurd hopen (by simp [hinit hx])
  have hnot : last ∉ post := by
    intro hmem
    have hmem' := hclosed last (hrest.mem_iff.mp (List.mem_append_right pre hmem))
    exact absurd hopen (by simp [hmem'])
  have hlast : post = [] ↔ (arranged (before ++ [t])).getLast? = some t := by
    rw [← getLast?_append_cons_iff hnot, ← hsplit, horder, suggestedOrder_eq_arranged, hparts,
      List.getLast?_map, Option.map_eq_some_iff]
    constructor
    · rintro ⟨x, hx, hmember⟩
      have hmem := (arranged_perm _).mem_iff.mp (List.mem_of_getLast? hx)
      rcases List.mem_append.mp hmem with hmem | hmem
      · exact absurd hmember (hne x hmem)
      · rw [hx, List.mem_singleton.mp hmem]
    · exact fun hend => ⟨t, hend, ht⟩
  rw [hlast, ← ht]
  apply getLast?_arranged_iff
  · exact fun x hx => Member.isFlexible_of_endsOpen_eq_false (hinit hx)
  · rintro x hx rfl
    exact hne x hx ht

/-- A box of bytes with the number of bytes in it; the bytes come after a tag. -/
def chest : Aggregate where
  kind := .struct
  members :=
    [⟨.primitive ⟨"long", some (.int 8), none⟩, some "count", .none⟩,
     ⟨.aggregate
       { kind := .struct
         members :=
           [⟨.primitive ⟨"char", some (.int 1), none⟩, some "tag", .none⟩,
            ⟨.flexibleArray (.primitive ⟨"char", some (.int 1), none⟩), some "data", .none⟩]
         name := some "bytes"
         pack := none
         attributes := .none
         origin := .written ["chest", "1"] }, some "body", .none⟩]
  name := some "chest"
  pack := none
  attributes := .none
  origin := .written ["chest"]

/-- The body of a chest stays last: its number comes first by alignment.  So it is in an engine that
keeps one layout and has answered under another profile. -/
theorem suggestReorder_openTail_chest :
    ∃ s, ((suggestReorder (layout .lp64) (.aggregate chest)).run ((make [] (some 1)).replay
        [.layout .ilp32 (.aggregate chest)])).1 = .ok (some s) ∧
      ∃ pre post, s.SplitsAt pre chest.members[1] post ∧ (pre ++ post).Perm [chest.members[0]] ∧
        post = [] := by
  have hmade : ((suggestReorder (layout .lp64) (.aggregate chest)).run ((make [] (some 1)).replay
      [.layout .ilp32 (.aggregate chest)])).1.toOption.map
        (Option.map fun s => s.members.map (·.name)) = some (some [some "count", some "body"]) := by
    cbv
  obtain ⟨o, ho, hnames⟩ := Option.map_eq_some_iff.mp hmade
  rw [Except.toOption_eq_some] at ho
  obtain ⟨s, rfl, hnames⟩ := Option.map_eq_some_iff.mp hnames
  replace hnames : s.members.map (·.name) = [some "count", some "body"] := Option.some.inj hnames
  have hmembers : chest.members = [chest.members[0]] ++ [chest.members[1]] := rfl
  obtain ⟨r, -, before, t, -, -, pre, post, hsplit, hperm, -⟩ :=
    suggestReorder_openTail hmembers rfl (by decide) ho
  refine ⟨s, ho, pre, post, hsplit, hperm, ?_⟩
  have hlength := hperm.length_eq
  rw [hsplit.members, List.map_append, List.map_cons] at hnames
  cases pre with
  | nil => simp [chest] at hnames
  | cons x pre =>
    simp only [List.length_append, List.length_cons, List.length_nil] at hlength
    exact List.eq_nil_of_length_eq_zero (by omega)

/-- A ledger begins with a tag and ends with an unnamed struct of a number and open-ended data. -/
def ledger : Aggregate where
  kind := .struct
  members :=
    [⟨.primitive ⟨"char", some (.int 1), none⟩, some "tag", .none⟩,
     ⟨.aggregate
       { kind := .struct
         members :=
           [⟨.primitive ⟨"long", some (.int 8), none⟩, some "count", .none⟩,
            ⟨.flexibleArray (.primitive ⟨"char", some (.int 1), none⟩), some "data", .none⟩]
         name := none
         pack := none
         attributes := .none
         origin := .written ["ledger", "1"] }, none, .none⟩]
  name := some "ledger"
  pack := none
  attributes := .none
  origin := .written ["ledger"]

/-- The suggestion for a ledger puts the tag after the unnamed struct, at the byte where the
open-ended data begin. -/
theorem suggestReorder_ledger_overrun :
    ∃ init last, ledger.members = init ++ [last] ∧ last.endsOpen = true ∧
      (∀ x ∈ init, x.endsOpen = false) ∧
      ∃ s, ((suggestReorder (layout .lp64) (.aggregate ledger)).run (make [] none)).1 =
          .ok (some s) ∧
        s.members.getLast? ≠ some last ∧
        s.layout.offsets = [("<anonymous 0>", 0), ("count", 0), ("data", 8), ("tag", 8)] := by
  have hmade : ((suggestReorder (layout .lp64) (.aggregate ledger)).run
      (make [] none)).1.toOption.map (Option.map fun s =>
        (s.members.map (·.name), s.layout.offsets)) =
      some (some ([none, some "tag"],
        [("<anonymous 0>", 0), ("count", 0), ("data", 8), ("tag", 8)])) := by
    cbv
  obtain ⟨o, ho, hshown⟩ := Option.map_eq_some_iff.mp hmade
  rw [Except.toOption_eq_some] at ho
  obtain ⟨s, rfl, hshown⟩ := Option.map_eq_some_iff.mp hshown
  obtain ⟨hnames, hoffsets⟩ := Prod.mk.inj (Option.some.inj hshown)
  refine ⟨[ledger.members[0]], ledger.members[1], rfl, rfl, by decide, s, ho, ?_, hoffsets⟩
  intro hlast
  have hname := congrArg List.getLast? hnames
  rw [List.getLast?_map, hlast] at hname
  simp [ledger] at hname

end Engine

end RecordLayout
