import TpmAttest.JsonKeys
import Mathlib.Data.List.Nodup

/-! # JSON texts that differ in their literals

The literals that are values of members may be chosen anew, by depth and key, and the
rest of the text left as it is: its keys, its strings, its nesting and its white space.
`SameButLiterals` says that two texts are related in this way.  What is asked of a text
without reading these literals holds of both or of neither; `strings_assign` says what
becomes of the strings.
-/
namespace TpmAttest.JsonGrammar

/-- `null`, `true`, `false` or a number. -/
def Value.isLiteral : Value → Bool
  | .null | .true | .false | .number _ => Bool.true
  | _ => Bool.false

/-- The literal `true` or `false`. -/
def literal (truth : Bool) : Value := if truth then .true else .false

@[simp] theorem isLiteral_literal (truth : Bool) : (literal truth).isLiteral = true := by
  cases truth <;> rfl

variable (truth : Nat → StringText → Bool)

mutual
/-- The value with the literals of its members chosen by their depth and key. -/
def Value.assign (depth : Nat) : Value → Value
  | .array ws elements => .array ws (elements.assign depth)
  | .object ws members => .object ws (members.assign depth)
  | v => v

def Elements.assign (depth : Nat) : Elements → Elements
  | .nil => .nil
  | .cons before value after rest =>
    .cons before (value.assign (depth + 1)) after (rest.assign depth)

def Members.assign (depth : Nat) : Members → Members
  | .nil => .nil
  | .cons before key beforeColon afterColon value after rest =>
    .cons before key beforeColon afterColon
      (if value.isLiteral then literal (truth depth key) else value.assign (depth + 1)) after
      (rest.assign depth)
end

/-- The value of a member, after the choice. -/
def assigned (depth : Nat) (key : StringText) (value : Value) : Value :=
  if value.isLiteral then literal (truth depth key) else value.assign truth (depth + 1)

def Token.assign (s : Token) : Token :=
  { s with member := s.member.map fun m => (m.1, m.2.1, assigned truth s.depth s.text m.2.2) }

variable {truth}

@[simp] theorem Value.isLiteral_assign (d : Nat) (v : Value) :
    (v.assign truth d).isLiteral = v.isLiteral := by
  cases v <;> rfl

@[simp] theorem isLiteral_assigned (d : Nat) (key : StringText) (v : Value) :
    (assigned truth d key v).isLiteral = v.isLiteral := by
  unfold assigned
  split
  · rename_i h
    rw [isLiteral_literal, h]
  · exact Value.isLiteral_assign _ v

/-- A literal holds no strings. -/
theorem strings_of_isLiteral {v : Value} (h : v.isLiteral = true) (d : Nat) :
    v.strings d = [] := by
  cases v with
  | string | array | object => cases h
  | _ => rfl

mutual
/-- **The strings of a text with its literals chosen.** -/
theorem Value.strings_assign (d : Nat) :
    (v : Value) → (v.assign truth d).strings d = (v.strings d).map (Token.assign truth)
  | .null | .true | .false | .number _ | .string _ => rfl
  | .array _ elements => elements.strings_assign d
  | .object _ members => members.strings_assign d

theorem Elements.strings_assign (d : Nat) :
    (es : Elements) → (es.assign truth d).strings d = (es.strings d).map (Token.assign truth)
  | .nil => rfl
  | .cons _ value _ es => by
    rw [Elements.assign, Elements.strings, Elements.strings, List.map_append,
      value.strings_assign (d + 1), es.strings_assign d]

theorem Members.strings_assign (d : Nat) :
    (ms : Members) → (ms.assign truth d).strings d = (ms.strings d).map (Token.assign truth)
  | .nil => rfl
  | .cons _ key _ _ value _ ms => by
    have hvalue : (assigned truth d key value).strings (d + 1) =
        (value.strings (d + 1)).map (Token.assign truth) := by
      unfold assigned
      by_cases h : value.isLiteral = true
      · rw [if_pos h, strings_of_isLiteral h,
          strings_of_isLiteral (isLiteral_literal (truth d key)), List.map_nil]
      · rw [if_neg h, value.strings_assign (d + 1)]
    rw [Members.strings, List.map_cons, List.map_append, ← hvalue, ← ms.strings_assign d]
    rfl
end

mutual
/-- The last choice counts. -/
theorem Value.assign_assign (truth' : Nat → StringText → Bool) (d : Nat) :
    (v : Value) → (v.assign truth d).assign truth' d = v.assign truth' d
  | .null | .true | .false | .number _ | .string _ => rfl
  | .array ws elements => congrArg (Value.array ws) (elements.assign_assign truth' d)
  | .object ws members => congrArg (Value.object ws) (members.assign_assign truth' d)

theorem Elements.assign_assign (truth' : Nat → StringText → Bool) (d : Nat) :
    (es : Elements) → (es.assign truth d).assign truth' d = es.assign truth' d
  | .nil => rfl
  | .cons _ value _ es => by
    simp only [Elements.assign, value.assign_assign truth' (d + 1), es.assign_assign truth' d]

theorem Members.assign_assign (truth' : Nat → StringText → Bool) (d : Nat) :
    (ms : Members) → (ms.assign truth d).assign truth' d = ms.assign truth' d
  | .nil => rfl
  | .cons _ key _ _ value _ ms => by
    by_cases h : value.isLiteral = true
    · simp only [Members.assign, if_pos h, isLiteral_literal, if_true, ms.assign_assign truth' d]
    · simp only [Members.assign, if_neg h, Value.isLiteral_assign, value.assign_assign truth' (d + 1),
        ms.assign_assign truth' d]
end

theorem Members.map_name_assign (d : Nat) :
    (ms : Members) → (ms.assign truth d).toList.map Member.name = ms.toList.map Member.name
  | .nil => rfl
  | .cons _ key _ _ _ _ ms => congrArg (units key :: ·) (ms.map_name_assign d)

/-! ## Objects -/

namespace ObjectText

variable (truth)

/-- The object with the literals of its members chosen. -/
def assign (t : ObjectText) : ObjectText :=
  { t with
    members := t.members.assign truth 0
    distinct := by
      rw [t.members.map_name_assign]
      exact t.distinct }

/-- The texts are the same when every literal that is the value of a member is `false`. -/
def SameButLiterals (t u : ObjectText) : Prop :=
  t.assign (fun _ _ => false) = u.assign fun _ _ => false

/-- The strings of the object, in their order. -/
def strings (t : ObjectText) : List Token := t.members.strings 0

variable {truth} {t u : ObjectText}

theorem strings_assign : (t.assign truth).strings = t.strings.map (Token.assign truth) :=
  t.members.strings_assign 0

theorem sameButLiterals_assign : (t.assign truth).SameButLiterals t := by
  unfold SameButLiterals assign
  simp only [Members.assign_assign]

/-- What does not depend on the literals is the same for both. -/
theorem SameButLiterals.iff (h : t.SameButLiterals u) {P : ObjectText → Prop}
    (hP : ∀ t : ObjectText, P (t.assign fun _ _ => false) ↔ P t) : P t ↔ P u := by
  rw [← hP t, ← hP u, h]

end ObjectText

/-! ## Members and their keys -/

/-- The string is the key of a member of the object itself, of this name. -/
def Token.Names (s : Token) (name : List Nat) : Prop :=
  s.depth = 0 ∧ s.member.isSome ∧ units s.text = name

/-- The string is the key of a member whose value is a literal. -/
def Token.KeyOfLiteral (s : Token) : Prop := ∃ m, s.member = some m ∧ m.2.2.isLiteral = true

/-- The string is a key, and its value is `true`. -/
def Token.KeyOfTrue (s : Token) : Prop := ∃ m, s.member = some m ∧ m.2.2 = .true

section
variable {s : Token} {name : List Nat}

theorem Token.KeyOfTrue.keyOfLiteral (h : s.KeyOfTrue) : s.KeyOfLiteral := by
  obtain ⟨m, hm, htrue⟩ := h
  exact ⟨m, hm, by rw [htrue]; rfl⟩

@[simp] theorem Token.names_assign : (s.assign truth).Names name ↔ s.Names name := by
  unfold Names assign
  rw [Option.isSome_map]

theorem Token.exists_member_assign {P : Value → Prop} :
    (∃ m, (s.assign truth).member = some m ∧ P m.2.2) ↔
      ∃ m, s.member = some m ∧ P (assigned truth s.depth s.text m.2.2) := by
  unfold assign
  cases s.member <;> simp

@[simp] theorem Token.keyOfLiteral_assign : (s.assign truth).KeyOfLiteral ↔ s.KeyOfLiteral := by
  unfold KeyOfLiteral
  rw [Token.exists_member_assign (P := fun v => v.isLiteral = true)]
  simp only [isLiteral_assigned]

/-- The choice is made for the literals. -/
theorem Token.keyOfTrue_assign :
    (s.assign truth).KeyOfTrue ↔ s.KeyOfLiteral ∧ truth s.depth s.text = true := by
  unfold KeyOfTrue KeyOfLiteral
  rw [Token.exists_member_assign (P := fun v => v = .true)]
  constructor
  · rintro ⟨m, hm, htrue⟩
    have hliteral : m.2.2.isLiteral = true := by
      rw [← @isLiteral_assigned truth s.depth s.text, htrue]
      rfl
    refine ⟨⟨m, hm, hliteral⟩, ?_⟩
    rw [assigned, if_pos hliteral] at htrue
    cases htruth : truth s.depth s.text with
    | true => rfl
    | false =>
      rw [htruth] at htrue
      cases htrue
  · rintro ⟨⟨m, hm, hliteral⟩, htruth⟩
    exact ⟨m, hm, by rw [assigned, if_pos hliteral, htruth]; rfl⟩

/-- Every member of an object has its key among the strings. -/
theorem Members.exists_key {d : Nat} {member : Member} :
    (ms : Members) → member ∈ ms.toList →
      ∃ s ∈ ms.strings d, s.depth = d ∧ units s.text = member.name ∧
        ∃ m, s.member = some m ∧ m.2.2 = member.value
  | .nil => fun h => absurd h List.not_mem_nil
  | .cons _ key _ _ value _ ms => fun h => by
    rcases List.mem_cons.mp h with rfl | h
    · exact ⟨_, List.mem_cons_self, rfl, rfl, _, rfl, rfl⟩
    · obtain ⟨s, hs, hkey⟩ := ms.exists_key h
      exact ⟨s, List.mem_cons_of_mem _ (List.mem_append_right _ hs), hkey⟩

/-- A key names the one member that has its name. -/
theorem ObjectText.hasTrue_of_names {t : ObjectText} {name : String} (hs : s ∈ t.strings)
    (hnames : s.Names (name.toList.flatMap (utf16 ·.toNat))) : t.HasTrue name ↔ s.KeyOfTrue := by
  obtain ⟨hdepth, hkey, hname⟩ := hnames
  obtain ⟨m, hm⟩ := Option.isSome_iff_exists.mp hkey
  have hmem := t.members.mem_toList hdepth hm hs
  constructor
  · rintro ⟨member, hmember, hsame, htrue⟩
    have heq := List.inj_on_of_nodup_map t.distinct hmember hmem (hsame.trans hname.symm)
    rw [heq] at htrue
    exact ⟨m, hm, htrue⟩
  · rintro ⟨m', hm', htrue⟩
    obtain rfl := Option.some.inj (hm.symm.trans hm')
    exact ⟨_, hmem, hname, htrue⟩

theorem ObjectText.hasTrue_iff {t : ObjectText} {name : String} :
    t.HasTrue name ↔
      ∃ s ∈ t.strings, s.Names (name.toList.flatMap (utf16 ·.toNat)) ∧ s.KeyOfTrue := by
  constructor
  · rintro ⟨member, hmember, hname, htrue⟩
    obtain ⟨s, hs, hdepth, hunits, m, hm, hvalue⟩ := t.members.exists_key (d := 0) hmember
    exact ⟨s, hs, ⟨hdepth, by rw [hm]; rfl, hunits.trans hname⟩, m, hm, hvalue.trans htrue⟩
  · rintro ⟨s, hs, hnames, htrue⟩
    exact (ObjectText.hasTrue_of_names hs hnames).mpr htrue

end

end TpmAttest.JsonGrammar
