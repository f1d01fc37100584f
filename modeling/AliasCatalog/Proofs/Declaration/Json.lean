import Mathlib.Data.List.Forall2
import AliasCatalog.Declaration.Json
import AliasCatalog.Proofs.Json.Reader

/-!
# Declarations as JSON and back

Declarations written as JSON are read back as they were (`declarations_read_back`): what is left out in
writing is restored in reading, and the tag that tells the kind is found wherever it stands.  A
declaration is read from what stands under the keys of its kind, so the order of the members does not
matter, nor what stands under other keys (`Restates`).
-/

namespace AliasCatalog

namespace Json

/-! ## Members -/

section Members

variable {key other : String} {members others extra : List (String × Value)}

/-- **What is found under a key does not depend on the order of the members.** -/
theorem member_perm (h : members.Perm others) : member key members = member key others := by
  have hperm := h.filter (·.1 == key)
  unfold member
  generalize members.filter (·.1 == key) = found at hperm ⊢
  generalize others.filter (·.1 == key) = again at hperm ⊢
  match found, again, hperm with
  | [], _, hperm => rw [hperm.nil_eq.symm]
  | [_], _, hperm => rw [hperm.singleton_eq.symm]
  | _ :: _ :: _, [], hperm => cases hperm.length_eq
  | _ :: _ :: _, [_], hperm => cases hperm.length_eq
  | _ :: _ :: _, _ :: _ :: _, _ => rfl

/-- Members under other keys are passed over. -/
theorem member_append_of_ne (h : ∀ m ∈ extra, m.1 ≠ key) :
    member key (members ++ extra) = member key members := by
  have hnone : extra.filter (·.1 == key) = [] := by
    rw [List.filter_eq_nil_iff]
    intro m hm
    simp [h m hm]
  rw [member, List.filter_append, hnone, List.append_nil, member]

/-- A member under another key is passed over. -/
theorem member_cons_of_ne {value : Value} (h : other ≠ key) :
    member key ((other, value) :: members) = member key members := by
  have hskip : ((other, value) :: members).filter (·.1 == key) = members.filter (·.1 == key) :=
    List.filter_cons_of_neg (by simpa using h)
  rw [member, hskip, member]

/-- A member that stands alone under its key is found. -/
theorem member_cons_self {value : Value} (h : ∀ m ∈ members, m.1 ≠ key) :
    member key ((key, value) :: members) = some (some value) := by
  have hone : ((key, value) :: members).filter (·.1 == key) = [(key, value)] := by
    rw [List.filter_cons_of_pos (by simp), List.filter_eq_nil_iff.mpr]
    intro m hm
    simp [h m hm]
  rw [member, hone]

/-- A text that may be left out is restored when nothing else stands under its key. -/
theorem optionalText_of_filter {text : Option String}
    (h : members.filter (·.1 == key) = optionalMember key text) :
    optionalText key members = some text := by
  cases text <;> simp [optionalText, member, h, optionalMember]

/-- A text that stands alone under its key is read. -/
theorem requiredText_of_filter {text : String}
    (h : members.filter (·.1 == key) = [(key, .string text)]) :
    requiredText key members = some text := by
  simp [requiredText, member, h]

/-- A list of written texts is read back. -/
theorem textItems_map_string (items : List String) : textItems (items.map .string) = some items := by
  induction items with
  | nil => rfl
  | cons item items ih => simp [textItems, ih]

/-- A list of texts that stands alone under its key is read. -/
theorem textList_of_filter {items : List String} {absent : Option (List String)}
    (h : members.filter (·.1 == key) = [(key, .texts items)]) :
    textList key absent members = some items := by
  simp [textList, member, h, Value.texts, textItems_map_string]

/-- For a list that is missing the given one is taken. -/
theorem textList_of_absent {absent : Option (List String)}
    (h : members.filter (·.1 == key) = []) : textList key absent members = absent := by
  simp [textList, member, h]

/-- An optional member stands under its own key alone. -/
@[simp] theorem filter_optionalMember (key other : String) (text : Option String) :
    (optionalMember other text).filter (·.1 == key) =
      if other = key then optionalMember other text else [] := by
  cases text <;> by_cases h : other = key <;> simp [optionalMember, h]

/-- An optional member has the key it is written with. -/
theorem key_of_mem_optionalMember {text : Option String} :
    ∀ m ∈ optionalMember key text, m.1 = key := by
  cases text <;> simp [optionalMember]

end Members

end Json

open Json

/-! ## Payloads -/

namespace Payload

/-- The keys under which the payloads of a kind are written. -/
def fields : Kind → List String
  | .library => ["group", "artifact", "version_ref", "version"]
  | .version => ["required", "strictly", "prefer", "reject"]
  | .bundle => ["members"]
  | .plugin => ["id", "version"]

variable {kind : Kind} {members others : List (String × Value)}

/-- The fields of a kind are neither the name nor the tag of the kind. -/
theorem ne_of_mem_fields {key : String} (h : key ∈ fields kind) : key ≠ "name" ∧ key ≠ "kind" := by
  revert key
  cases kind <;> decide

/-- A payload is written under the fields of its kind. -/
theorem mem_fields_of_mem_members (payload : Payload) :
    ∀ m ∈ payload.members, m.1 ∈ fields payload.kind := by
  intro m hm
  cases payload with
  | library coordinate =>
      simp only [members, List.mem_append, List.mem_cons, List.not_mem_nil, or_false] at hm
      rcases hm with ((rfl | rfl) | href) | hversion
      · exact List.mem_cons_self
      · exact List.mem_cons_of_mem _ List.mem_cons_self
      · simp [key_of_mem_optionalMember m href, fields, kind]
      · simp [key_of_mem_optionalMember m hversion, fields, kind]
  | version constraint =>
      simp only [members, List.mem_append] at hm
      rcases hm with ((hrequired | hstrictly) | hprefer) | hreject
      · simp [key_of_mem_optionalMember m hrequired, fields, kind]
      · simp [key_of_mem_optionalMember m hstrictly, fields, kind]
      · simp [key_of_mem_optionalMember m hprefer, fields, kind]
      · split at hreject
        · cases hreject
        · simp [List.mem_singleton.mp hreject, fields, kind]
  | bundle items => simp [List.mem_singleton.mp hm, fields, kind]
  | plugin spec =>
      rcases List.mem_cons.mp hm with rfl | hversion
      · exact List.mem_cons_self
      · simp [key_of_mem_optionalMember m hversion, fields, kind]

/-- **A payload is read from the fields of its kind** and from nothing else. -/
theorem ofMembers?_congr (h : ∀ key ∈ fields kind, member key members = member key others) :
    ofMembers? kind members = ofMembers? kind others := by
  cases kind <;>
    simp only [fields, List.forall_mem_cons, List.not_mem_nil, false_implies, implies_true,
      and_true] at h <;>
    simp only [ofMembers?, VersionConstraint.ofMembers?, requiredText, optionalText, textList, h]

/-- **A written payload is read back.** -/
theorem ofMembers?_members (payload : Payload) :
    ofMembers? payload.kind payload.members = some payload := by
  cases payload with
  | library coordinate =>
      have hgroup := @requiredText_of_filter "group" (members (.library coordinate))
        coordinate.group (by simp [members])
      have hartifact := @requiredText_of_filter "artifact" (members (.library coordinate))
        coordinate.artifact (by simp [members])
      have hversionRef := @optionalText_of_filter "version_ref" (members (.library coordinate))
        coordinate.versionRef (by simp [members])
      have hversion := @optionalText_of_filter "version" (members (.library coordinate))
        coordinate.version (by simp [members])
      simp [ofMembers?, kind, hgroup, hartifact, hversionRef, hversion]
  | version constraint =>
      have hreject : textList "reject" (some []) (members (.version constraint)) =
          some constraint.reject := by
        cases hitems : constraint.reject with
        | nil => exact textList_of_absent (by simp [members, hitems])
        | cons item items => exact textList_of_filter (by simp [members, hitems])
      have hrequired := @optionalText_of_filter "required" (members (.version constraint))
        constraint.required (by simp [members])
      have hstrictly := @optionalText_of_filter "strictly" (members (.version constraint))
        constraint.strictly (by simp [members])
      have hprefer := @optionalText_of_filter "prefer" (members (.version constraint))
        constraint.prefer (by simp [members])
      simp [ofMembers?, VersionConstraint.ofMembers?, kind, hrequired, hstrictly, hprefer, hreject]
  | bundle items =>
      have hitems := @textList_of_filter "members" (members (.bundle items)) items none
        (by simp [members])
      simp [ofMembers?, kind, hitems]
  | plugin spec =>
      have hid := @requiredText_of_filter "id" (members (.plugin spec)) spec.id (by simp [members])
      have hversion := @optionalText_of_filter "version" (members (.plugin spec)) spec.version
        (by simp [members])
      simp [ofMembers?, kind, hid, hversion]

end Payload

/-! ## Declarations -/

/-- The kind that the members of a declaration state, if they state one. -/
def statedKind (members : List (String × Value)) : Option Kind :=
  (member "kind" members).bind (·.bind Kind.ofTag?)

/-- The other value states the same as the first: an object may have its members in another order, and
more of them under keys that mean nothing for its kind. -/
inductive Restates : Value → Value → Prop where
  | same (value : Value) : Restates value value
  | object {members extra others : List (String × Value)} (order : (members ++ extra).Perm others)
      (unknown : ∀ m ∈ extra, m.1 ≠ "name" ∧ m.1 ≠ "kind" ∧
        ∀ kind, statedKind members = some kind → m.1 ∉ Payload.fields kind) :
      Restates (.object members) (.object others)

namespace Declaration

/-- A declaration is read from a name, a kind and the fields of this kind. -/
theorem ofJson?_object (members : List (String × Value)) :
    ofJson? (.object members) = (requiredText "name" members).bind fun name =>
      (statedKind members).bind fun kind =>
        (Payload.ofMembers? kind members).bind fun payload => some ⟨name, payload⟩ := by
  simp only [ofJson?, statedKind, Option.bind_eq_bind, Option.bind_assoc, Option.pure_def]

/-- **A declaration is read alike however it is stated.** -/
theorem ofJson?_restates {value other : Value} (h : Restates value other) :
    ofJson? other = ofJson? value := by
  cases h with
  | same => rfl
  | @object members extra others order unknown =>
      have hmember : ∀ key, (∀ m ∈ extra, m.1 ≠ key) → member key others = member key members :=
        fun key hne => (member_perm order).symm.trans (member_append_of_ne hne)
      have hkind : statedKind others = statedKind members := by
        rw [statedKind, hmember "kind" fun m hm => (unknown m hm).2.1, statedKind]
      rw [ofJson?_object, ofJson?_object, hkind, requiredText,
        hmember "name" fun m hm => (unknown m hm).1, ← requiredText]
      cases hstated : statedKind members with
      | none => rfl
      | some kind =>
          have hpayload : Payload.ofMembers? kind others = Payload.ofMembers? kind members := by
            apply Payload.ofMembers?_congr
            intro key hkey
            apply hmember
            rintro m hm rfl
            exact (unknown m hm).2.2 kind hstated hkey
          simp only [Option.bind_some, hpayload]

/-- A kind is read back from its name. -/
theorem ofTag?_name (kind : Kind) : Kind.ofTag? (.string kind.name) = some kind := by
  cases kind <;> rfl

/-- **A written declaration is read back.** -/
theorem ofJson?_toJson (d : Declaration) : ofJson? d.toJson = some d := by
  have hfields : ∀ m ∈ d.payload.members, m.1 ≠ "name" ∧ m.1 ≠ "kind" :=
    fun m hm => Payload.ne_of_mem_fields (d.payload.mem_fields_of_mem_members m hm)
  have hname : requiredText "name" (("name", .string d.name) :: ("kind", .string d.kind.name)
      :: d.payload.members) = some d.name := by
    have hothers : ∀ m ∈ ("kind", Value.string d.kind.name) :: d.payload.members, m.1 ≠ "name" :=
      List.forall_mem_cons.mpr ⟨show "kind" ≠ "name" by decide, fun m hm => (hfields m hm).1⟩
    rw [requiredText, member_cons_self hothers]
  have hkind : statedKind (("name", .string d.name) :: ("kind", .string d.kind.name)
      :: d.payload.members) = some d.kind := by
    rw [statedKind, member_cons_of_ne (by decide), member_cons_self fun m hm => (hfields m hm).2]
    exact ofTag?_name d.kind
  have hpayload : Payload.ofMembers? d.kind (("name", .string d.name)
      :: ("kind", .string d.kind.name) :: d.payload.members) = some d.payload := by
    refine (Payload.ofMembers?_congr fun key hkey => ?_).trans d.payload.ofMembers?_members
    obtain ⟨hnotName, hnotKind⟩ := Payload.ne_of_mem_fields hkey
    rw [member_cons_of_ne hnotName.symm, member_cons_of_ne hnotKind.symm]
  rw [toJson, ofJson?_object, hname, hkind]
  simp only [Option.bind_some, hpayload]

end Declaration

/-! ## Lists of declarations -/

/-- Restated declarations are read alike, one by one. -/
theorem declarationsOfJson?_restates {items others : List Value}
    (h : List.Forall₂ Restates items others) :
    declarationsOfJson? (.array others) = declarationsOfJson? (.array items) := by
  show others.mapM Declaration.ofJson? = items.mapM Declaration.ofJson?
  induction h with
  | nil => rfl
  | cons hfirst _ ih => rw [List.mapM_cons, List.mapM_cons, Declaration.ofJson?_restates hfirst, ih]

/-- Written declarations are read back. -/
theorem declarationsOfJson?_toJson (declarations : List Declaration) :
    declarationsOfJson? (declarationsToJson declarations) = some declarations := by
  show (declarations.map (·.toJson)).mapM Declaration.ofJson? = some declarations
  induction declarations with
  | nil => rfl
  | cons d declarations ih =>
      rw [List.map_cons, List.mapM_cons, Declaration.ofJson?_toJson, ih]
      rfl

/-! ## Texts -/

theorem shallow_texts {depth : Nat} (items : List String) : Shallow (depth + 1) (.texts items) := by
  refine .array fun item hitem => ?_
  obtain ⟨text, _, rfl⟩ := List.mem_map.mp hitem
  exact .string text

theorem shallow_optionalMember {depth : Nat} {key : String} {text : Option String} :
    ∀ m ∈ optionalMember key text, Shallow depth m.2 := by
  cases text with
  | none => exact fun m hm => nomatch hm
  | some text => exact List.forall_mem_singleton.mpr (.string text)

/-- A payload holds texts and lists of texts. -/
theorem Payload.shallow_members {depth : Nat} (payload : Payload) :
    ∀ m ∈ payload.members, Shallow (depth + 1) m.2 := by
  cases payload with
  | library coordinate =>
      have htexts : ∀ m ∈ [("group", Value.string coordinate.group),
          ("artifact", .string coordinate.artifact)], Shallow (depth + 1) m.2 :=
        List.forall_mem_cons.mpr ⟨.string _, List.forall_mem_singleton.mpr (.string _)⟩
      exact List.forall_mem_append.mpr
        ⟨List.forall_mem_append.mpr ⟨htexts, shallow_optionalMember⟩, shallow_optionalMember⟩
  | version constraint =>
      refine List.forall_mem_append.mpr ⟨List.forall_mem_append.mpr ⟨List.forall_mem_append.mpr
        ⟨shallow_optionalMember, shallow_optionalMember⟩, shallow_optionalMember⟩, ?_⟩
      split
      · exact fun m hm => nomatch hm
      · exact List.forall_mem_singleton.mpr (shallow_texts _)
  | bundle items => exact List.forall_mem_singleton.mpr (shallow_texts items)
  | plugin spec => exact List.forall_mem_cons.mpr ⟨.string _, shallow_optionalMember⟩

/-- A declaration is two levels deep at most. -/
theorem Declaration.shallow_toJson {depth : Nat} (d : Declaration) :
    Shallow (depth + 2) d.toJson :=
  .object (List.forall_mem_cons.mpr ⟨.string _, List.forall_mem_cons.mpr
    ⟨.string _, d.payload.shallow_members⟩⟩)

/-- A list of declarations is three levels deep at most. -/
theorem shallow_declarationsToJson {depth : Nat} (declarations : List Declaration) :
    Shallow (depth + 3) (declarationsToJson declarations) :=
  .array (List.forall_mem_map.mpr fun d _ => d.shallow_toJson)

/-- **Declarations survive as JSON**, whatever their texts hold and whatever they leave out; and they are
read alike from values that restate them.  At most three levels are open at a time, so the reader is never
too deep. -/
theorem declarations_read_back (declarations : List Declaration) :
    parseDeclarations? (declarationsToJson declarations).compact = some declarations ∧
      ∀ items others, List.Forall₂ Restates items others →
        declarationsOfJson? (.array others) = declarationsOfJson? (.array items) := by
  constructor
  · have hparse := parse?_compact (@shallow_declarationsToJson 124 declarations)
    rw [parseDeclarations?, hparse, Option.bind_some, declarationsOfJson?_toJson]
  · intro items others hrestates
    exact declarationsOfJson?_restates hrestates

/-- A plugin with a quote and a line break in its id, also read from its members in reverse behind one
that means nothing. -/
theorem plugin_read_back :
    ∃ stated restated, declarationsToJson [.plugin "a" "\"\n"] = .array [stated] ∧
      restated = .object [("note", .null), ("id", .string "\"\n"), ("kind", .string "plugin"),
        ("name", .string "a")] ∧
      List.Forall₂ Restates [stated] [restated] ∧
      declarationsOfJson? (.array [restated]) = some [.plugin "a" "\"\n"] ∧
      parseDeclarations? (declarationsToJson [.plugin "a" "\"\n"]).compact =
        some [.plugin "a" "\"\n"] := by
  have hrestates : List.Forall₂ Restates [(Declaration.plugin "a" "\"\n").toJson]
      [.object [("note", .null), ("id", .string "\"\n"), ("kind", .string "plugin"),
        ("name", .string "a")]] := by
    refine .cons (@Restates.object _ [("note", .null)] _ (List.reverse_perm _).symm ?_) .nil
    refine List.forall_mem_singleton.mpr ⟨by decide, by decide, fun kind _ => ?_⟩
    cases kind <;> decide
  obtain ⟨hread, hrestated⟩ := declarations_read_back [.plugin "a" "\"\n"]
  exact ⟨_, _, rfl, rfl, hrestates,
    (hrestated _ _ hrestates).trans (declarationsOfJson?_toJson [.plugin "a" "\"\n"]), hread⟩

end AliasCatalog
