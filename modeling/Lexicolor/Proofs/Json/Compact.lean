import Mathlib
import Lexicolor.Proofs.Json.Texts

/-!
# Texts without blanks

Where nothing that follows could go on with a number, the text of a value ends at
one place only. So the text of an array determines the texts of its items, and
the text of an object determines its keys and the texts of their values.
-/

namespace Lexicolor.Json

variable {r r' : List Char} {c : Char} {v w : Json}

/-! ## Numbers -/

/-- A character that the text of a number may have. -/
def isNumeric (c : Char) : Bool := c.isDigit || c == '-' || c == '+' || c == '.' || c == 'e'

theorem isNumeric_of_mem_toDigits {n : Nat} (h : c ∈ Nat.toDigits 10 n) : isNumeric c := by
  simp [isNumeric, Nat.isDigit_of_mem_toDigits (by decide) (by decide) h]

theorem isNumeric_of_mem_formatWrite {form : Number.Format} {d : Decimal}
    (h : c ∈ form.write d) : isNumeric c := by
  unfold Number.Format.write at h
  dsimp only at h
  -- in each of the four layouts, all but the digits is written out
  have hdigit : c ∈ Nat.toDigits 10 d.digits → isNumeric c := isNumeric_of_mem_toDigits
  split at h
  next =>
    split at h
    next =>
      simp only [List.mem_append, List.mem_replicate, List.mem_cons] at h
      rcases h with (h | ⟨-, rfl⟩) | rfl | rfl | h
      · exact hdigit h
      · rfl
      · rfl
      · rfl
      · cases h
    next =>
      split at h
      next =>
        rcases List.mem_append.mp h with h | h
        · exact hdigit (List.mem_of_mem_take h)
        · rcases List.mem_cons.mp h with rfl | h
          · rfl
          · exact hdigit (List.mem_of_mem_drop h)
      next =>
        simp only [List.cons_append, List.mem_cons, List.mem_append, List.mem_replicate] at h
        rcases h with rfl | rfl | ⟨-, rfl⟩ | h
        · rfl
        · rfl
        · rfl
        · exact hdigit h
  next =>
    rcases List.mem_append.mp h with h | h
    · -- the digits, with a point behind the first where there are more
      split at h
      next => cases h
      next first hdigits =>
        exact hdigit (hdigits ▸ h)
      next first rest _ hdigits =>
        rcases List.mem_cons.mp h with rfl | h
        · exact hdigit (hdigits ▸ List.mem_cons_self)
        · rcases List.mem_cons.mp h with rfl | h
          · rfl
          · exact hdigit (hdigits ▸ List.mem_cons_of_mem _ h)
    · rcases List.mem_cons.mp h with rfl | h
      · rfl
      · rcases List.mem_cons.mp h with rfl | h
        · split <;> rfl
        · exact isNumeric_of_mem_toDigits h

theorem formatWrite_ne_nil {form : Number.Format} {d : Decimal} : form.write d ≠ [] := by
  unfold Number.Format.write
  dsimp only
  split_ifs <;> simp

theorem isNumeric_of_mem_write {n : Number} (h : c ∈ n.write) : isNumeric c := by
  cases n with
  | integer n =>
      simp only [Number.write, Number.writeInteger] at h
      split at h
      next =>
        rcases List.mem_cons.mp h with rfl | h
        · rfl
        · exact isNumeric_of_mem_toDigits h
      next => exact isNumeric_of_mem_toDigits h
  | double bits =>
      have htext : (c ∈ if bits % (1 <<< 63) = 0 then ['0', '.', '0']
          else Number.format.write (Decimal.Binary.ofBits (bits % (1 <<< 63))).shortest) →
          isNumeric c := by
        intro hc
        split at hc
        next =>
          simp only [List.mem_cons, List.not_mem_nil, or_false] at hc
          rcases hc with rfl | rfl | rfl <;> rfl
        next => exact isNumeric_of_mem_formatWrite hc
      simp only [Number.write, Number.writeDouble] at h
      split at h
      next => exact htext h
      next =>
        rcases List.mem_cons.mp h with rfl | h
        · rfl
        · exact htext h

theorem write_ne_nil (n : Number) : n.write ≠ [] := by
  cases n with
  | integer n =>
      simp only [Number.write, Number.writeInteger]
      split
      · exact List.cons_ne_nil _ _
      · exact Nat.toDigits_ne_nil
  | double bits =>
      simp only [Number.write, Number.writeDouble]
      split
      · split
        · exact List.cons_ne_nil _ _
        · exact formatWrite_ne_nil
      · exact List.cons_ne_nil _ _

/-- A number in front of the text is at its end. -/
def Stops (cs : List Char) : Prop := ∀ c, cs.head? = some c → isNumeric c = false

theorem stops_cons {cs : List Char} : Stops (c :: cs) ↔ isNumeric c = false := by
  simp [Stops]

theorem numeric_append_inj {l l' : List Char} (hl : ∀ c ∈ l, isNumeric c)
    (hl' : ∀ c ∈ l', isNumeric c) (hr : Stops r) (hr' : Stops r') (h : l ++ r = l' ++ r') :
    l = l' ∧ r = r' := by
  induction l generalizing l' with
  | nil =>
      cases l' with
      | nil => exact ⟨rfl, h⟩
      | cons c l' =>
          have hc := hr c (congrArg List.head? h)
          rw [hl' c List.mem_cons_self] at hc
          cases hc
  | cons c l ih =>
      obtain ⟨hc, hl⟩ := List.forall_mem_cons.mp hl
      cases l' with
      | nil =>
          have hc' := hr' c (congrArg List.head? h.symm)
          rw [hc] at hc'
          cases hc'
      | cons c' l' =>
          obtain ⟨rfl, htail⟩ := List.cons.inj h
          obtain ⟨rfl, hrest⟩ := ih hl (List.forall_mem_cons.mp hl').2 htail
          exact ⟨rfl, hrest⟩

/-! ## The kinds of values -/

inductive Kind where
  | null
  | bool
  | number
  | string
  | array
  | object

def kind : Json → Kind
  | .null => .null
  | .bool _ => .bool
  | .number _ => .number
  | .string _ => .string
  | .array _ => .array
  | .object _ => .object

/-- The kind of the value whose text starts with the character. -/
def kindOf? (c : Char) : Option Kind :=
  if c = 'n' then some .null
  else if c = 't' ∨ c = 'f' then some .bool
  else if c = '"' then some .string
  else if c = '[' then some .array
  else if c = '\x7b' then some .object
  else if isNumeric c then some .number
  else none

theorem kindOf?_of_isNumeric (h : isNumeric c) : kindOf? c = some .number := by
  have hne : ∀ d, isNumeric d = false → c ≠ d := by
    rintro d hd rfl
    rw [h] at hd
    cases hd
  simp [kindOf?, h, hne 'n' rfl, hne 't' rfl, hne 'f' rfl, hne '"' rfl, hne '[' rfl,
    hne '\x7b' rfl]

theorem exists_cons_compact (v : Json) : ∃ c cs, v.compact = c :: cs ∧ kindOf? c = some v.kind := by
  cases v with
  | null => exact ⟨_, _, rfl, rfl⟩
  | bool b => cases b <;> exact ⟨_, _, rfl, rfl⟩
  | number n =>
      obtain ⟨c, cs, hwrite⟩ := List.exists_cons_of_ne_nil (write_ne_nil n)
      refine ⟨c, cs, by rw [compact, hwrite], ?_⟩
      apply kindOf?_of_isNumeric (isNumeric_of_mem_write (n := n) _)
      rw [hwrite]
      exact List.mem_cons_self
  | string s => exact ⟨'"', _, by rw [compact, quote]; rfl, rfl⟩
  | array items => exact ⟨'[', _, by rw [compact]; rfl, rfl⟩
  | object members => exact ⟨'\x7b', _, by rw [compact]; rfl, rfl⟩

/-- Values whose texts start the same are of the same kind. -/
theorem kind_eq_of_compact_append (h : v.compact ++ r = w.compact ++ r') : v.kind = w.kind := by
  obtain ⟨c, cs, hv, hkind⟩ := exists_cons_compact v
  obtain ⟨c', cs', hw, hkind'⟩ := exists_cons_compact w
  rw [hv, hw] at h
  obtain ⟨rfl, -⟩ := List.cons.inj h
  rw [hkind] at hkind'
  exact Option.some.inj hkind'

/-! ## Where texts end -/

theorem quote_append_inj {s s' : String} (h : quote s ++ r = quote s' ++ r') : s = s' ∧ r = r' := by
  have hread := congrArg (fun cs => readQuoted .standard cs.tail) h
  simp only [quote, List.cons_append, List.append_assoc, List.tail_cons, List.nil_append,
    readQuoted_quote] at hread
  obtain ⟨hpieces, hrest⟩ := Prod.mk.inj hread
  have htext := congrArg (fun q : Quoted => textOf none q.pieces) hpieces
  simp only [textOf_pieceOf] at htext
  exact ⟨String.toList_inj.mp (Except.ok.inj htext), hrest⟩

/-- What stands behind the first of some parts that have commas between them. -/
def behind (parts : List (List Char)) (close : Char) (r : List Char) : List Char :=
  match parts with
  | [] => close :: r
  | part :: parts => ',' :: (Text.join [','] (part :: parts) ++ close :: r)

theorem join_cons_append (part : List Char) (parts : List (List Char)) (close : Char)
    (r : List Char) :
    Text.join [','] (part :: parts) ++ close :: r = part ++ behind parts close r := by
  cases parts with
  | nil => simp [Text.join, behind]
  | cons next parts => simp [Text.join, behind, List.intercalate_cons_cons]

theorem stops_behind {close : Char} (h : isNumeric close = false) (parts : List (List Char)) :
    Stops (behind parts close r) := by
  cases parts with
  | nil => exact stops_cons.mpr h
  | cons part parts => exact stops_cons.mpr rfl

/-- The two texts end at the same place wherever both stand in front of the same text. -/
def EndAlike (part part' : List Char) : Prop :=
  ∀ r r', Stops r → Stops r' → part ++ r = part' ++ r' → part = part' ∧ r = r'

/-- The text starts with another character. -/
def StartsOff (close : Char) (part : List Char) : Prop := ∃ c cs, part = c :: cs ∧ c ≠ close

theorem join_append_inj {close : Char} {parts parts' : List (List Char)} (hcomma : close ≠ ',')
    (hclose : isNumeric close = false) (hparts : ∀ p ∈ parts, ∀ p' ∈ parts', EndAlike p p')
    (hstart : ∀ p ∈ parts, StartsOff close p) (hstart' : ∀ p ∈ parts', StartsOff close p)
    (h : Text.join [','] parts ++ close :: r = Text.join [','] parts' ++ close :: r') :
    parts = parts' ∧ r = r' := by
  induction parts generalizing parts' with
  | nil =>
      cases parts' with
      | nil => exact ⟨rfl, (List.cons.inj h).2⟩
      | cons part' parts' =>
          obtain ⟨c, cs, rfl, hc⟩ := hstart' part' List.mem_cons_self
          rw [join_cons_append] at h
          exact absurd (List.cons.inj h).1.symm hc
  | cons part parts ih =>
      obtain ⟨hpart, hrest⟩ := List.forall_mem_cons.mp hparts
      obtain ⟨hfirst, hstart⟩ := List.forall_mem_cons.mp hstart
      rw [join_cons_append] at h
      cases parts' with
      | nil =>
          obtain ⟨c, cs, rfl, hc⟩ := hfirst
          exact absurd (List.cons.inj h).1 hc
      | cons part' parts' =>
          -- the first parts end at the same place, and behind it is a comma or the closing mark
          obtain ⟨hpart, -⟩ := List.forall_mem_cons.mp hpart
          rw [join_cons_append] at h
          obtain ⟨rfl, hbehind⟩ := hpart _ _ (stops_behind hclose _) (stops_behind hclose _) h
          cases parts with
          | nil =>
              cases parts' with
              | nil => exact ⟨rfl, (List.cons.inj hbehind).2⟩
              | cons => exact absurd (List.cons.inj hbehind).1 hcomma
          | cons next parts =>
              cases parts' with
              | nil => exact absurd (List.cons.inj hbehind).1.symm hcomma
              | cons next' parts' =>
                  have hrest' : ∀ p ∈ next :: parts, ∀ p' ∈ next' :: parts', EndAlike p p' :=
                    fun p hp p' hp' => hrest p hp p' (List.mem_cons_of_mem _ hp')
                  obtain ⟨hparts, hr⟩ := ih hrest' hstart (List.forall_mem_cons.mp hstart').2
                    (List.cons.inj hbehind).2
                  exact ⟨congrArg _ hparts, hr⟩

theorem compactItems_eq_map (items : List Json) : compactItems items = items.map compact := by
  induction items with
  | nil => rw [compactItems, List.map_nil]
  | cons item items ih => rw [compactItems, List.map_cons, ih]

/-- A key, its colon and its value. -/
def memberText (member : String × Json) : List Char := quote member.1 ++ ':' :: member.2.compact

theorem compactMembers_eq_map (members : List (String × Json)) :
    compactMembers members = members.map memberText := by
  induction members with
  | nil => rw [compactMembers, List.map_nil]
  | cons member members ih =>
      rw [compactMembers, List.map_cons, ih]
      rfl

theorem startsOff_compact {close : Char} (hclose : kindOf? close = none) (v : Json) :
    StartsOff close v.compact := by
  obtain ⟨c, cs, hv, hkind⟩ := exists_cons_compact v
  refine ⟨c, cs, hv, ?_⟩
  rintro rfl
  rw [hclose] at hkind
  cases hkind

theorem startsOff_memberText (member : String × Json) : StartsOff '\x7d' (memberText member) :=
  ⟨'"', _, rfl, by decide⟩

theorem endAlike_memberText {member : String × Json}
    (h : ∀ w : Json, EndAlike member.2.compact w.compact)
    (other : String × Json) : EndAlike (memberText member) (memberText other) := by
  intro r r' hr hr' heq
  simp only [memberText, List.append_assoc] at heq
  obtain ⟨hkey, heq⟩ := quote_append_inj heq
  obtain ⟨hvalue, hrest⟩ := h _ r r' hr hr' (List.cons.inj heq).2
  exact ⟨by rw [memberText, memberText, hkey, hvalue], hrest⟩

theorem join_items_inj {items items' : List Json}
    (hitems : ∀ item ∈ items, ∀ w : Json, EndAlike item.compact w.compact)
    (h : Text.join [','] (compactItems items) ++ ']' :: r =
      Text.join [','] (compactItems items') ++ ']' :: r') :
    items.map compact = items'.map compact ∧ r = r' := by
  rw [compactItems_eq_map, compactItems_eq_map] at h
  refine join_append_inj (by decide) rfl ?_ ?_ ?_ h
  · simp only [List.forall_mem_map]
    exact fun item hitem item' _ => hitems item hitem item'
  · exact List.forall_mem_map.mpr fun item _ => startsOff_compact rfl item
  · exact List.forall_mem_map.mpr fun item _ => startsOff_compact rfl item

theorem join_members_inj {members members' : List (String × Json)}
    (hmembers : ∀ m ∈ members, ∀ w : Json, EndAlike m.2.compact w.compact)
    (h : Text.join [','] (compactMembers members) ++ '\x7d' :: r =
      Text.join [','] (compactMembers members') ++ '\x7d' :: r') :
    members.map memberText = members'.map memberText ∧ r = r' := by
  rw [compactMembers_eq_map, compactMembers_eq_map] at h
  refine join_append_inj (by decide) rfl ?_ ?_ ?_ h
  · simp only [List.forall_mem_map]
    exact fun m hm m' _ => endAlike_memberText (hmembers m hm) m'
  · exact List.forall_mem_map.mpr fun m _ => startsOff_memberText m
  · exact List.forall_mem_map.mpr fun m _ => startsOff_memberText m

mutual

/-- The texts of values end at the same place. -/
theorem endAlike_compact : ∀ v w : Json, EndAlike v.compact w.compact
  | .null, w => by
      intro r r' _ _ h
      cases w with
      | null => exact ⟨rfl, List.append_cancel_left h⟩
      | _ => cases kind_eq_of_compact_append h
  | .bool b, w => by
      intro r r' _ _ h
      cases w with
      | bool b' =>
          cases b <;> cases b'
          · exact ⟨rfl, List.append_cancel_left h⟩
          · exact absurd (List.cons.inj h).1 (by decide)
          · exact absurd (List.cons.inj h).1 (by decide)
          · exact ⟨rfl, List.append_cancel_left h⟩
      | _ => cases kind_eq_of_compact_append h
  | .number n, w => by
      intro r r' hr hr' h
      cases w with
      | number n' =>
          exact numeric_append_inj (fun _ => isNumeric_of_mem_write)
            (fun _ => isNumeric_of_mem_write) hr hr' h
      | _ => cases kind_eq_of_compact_append h
  | .string s, w => by
      intro r r' _ _ h
      cases w with
      | string s' =>
          obtain ⟨rfl, hrest⟩ := quote_append_inj h
          exact ⟨rfl, hrest⟩
      | _ => cases kind_eq_of_compact_append h
  | .array items, w => by
      intro r r' _ _ h
      cases w with
      | array items' =>
          simp only [compact, List.cons_append, List.append_assoc, List.nil_append] at h ⊢
          obtain ⟨hitems, hrest⟩ := join_items_inj (endAlike_compactItems items) (List.cons.inj h).2
          rw [compactItems_eq_map, compactItems_eq_map, hitems]
          exact ⟨rfl, hrest⟩
      | _ => cases kind_eq_of_compact_append h
  | .object members, w => by
      intro r r' _ _ h
      cases w with
      | object members' =>
          simp only [compact, List.cons_append, List.append_assoc, List.nil_append] at h ⊢
          obtain ⟨hmembers, hrest⟩ :=
            join_members_inj (endAlike_compactMembers members) (List.cons.inj h).2
          rw [compactMembers_eq_map, compactMembers_eq_map, hmembers]
          exact ⟨rfl, hrest⟩
      | _ => cases kind_eq_of_compact_append h

theorem endAlike_compactItems : ∀ items : List Json, ∀ item ∈ items, ∀ w : Json,
    EndAlike item.compact w.compact
  | [] => by simp
  | item :: items =>
      List.forall_mem_cons.mpr ⟨endAlike_compact item, endAlike_compactItems items⟩

theorem endAlike_compactMembers : ∀ members : List (String × Json), ∀ m ∈ members, ∀ w : Json,
    EndAlike m.2.compact w.compact
  | [] => by simp
  | (_, value) :: members =>
      List.forall_mem_cons.mpr ⟨endAlike_compact value, endAlike_compactMembers members⟩

end

/-! ## What a text determines -/

theorem kind_eq_of_compact (h : v.compact = w.compact) : v.kind = w.kind :=
  kind_eq_of_compact_append (congrArg (· ++ []) h)

theorem compact_string_inj {s s' : String} :
    (Json.string s).compact = (Json.string s').compact ↔ s = s' := by
  constructor
  · intro h
    have h : quote s ++ [] = quote s' ++ [] := by simpa [compact] using h
    exact (quote_append_inj h).1
  · intro h
    rw [h]

theorem compact_bool_inj {b b' : Bool} :
    (Json.bool b).compact = (Json.bool b').compact ↔ b = b' := by
  cases b <;> cases b' <;> decide

theorem compact_array_inj {items items' : List Json} :
    (Json.array items).compact = (Json.array items').compact ↔
      items.map compact = items'.map compact := by
  constructor
  · intro h
    rw [compact, compact] at h
    exact (join_items_inj (endAlike_compactItems items) (List.cons.inj h).2).1
  · intro h
    rw [compact, compact, compactItems_eq_map, compactItems_eq_map, h]

theorem compact_object_inj {members members' : List (String × Json)} :
    (Json.object members).compact = (Json.object members').compact ↔
      members.map (fun m => (m.1, m.2.compact)) = members'.map fun m => (m.1, m.2.compact) := by
  have hinj : Function.Injective fun m : String × List Char => quote m.1 ++ ':' :: m.2 := by
    intro m m' h
    obtain ⟨hkey, hvalue⟩ := quote_append_inj h
    exact Prod.ext hkey (List.cons.inj hvalue).2
  have hmap : ∀ ms : List (String × Json), ms.map memberText =
      (ms.map fun m => (m.1, m.2.compact)).map fun m => quote m.1 ++ ':' :: m.2 := by
    simp [memberText, Function.comp_def]
  rw [← hinj.list_map.eq_iff, ← hmap, ← hmap]
  constructor
  · intro h
    rw [compact, compact] at h
    exact (join_members_inj (endAlike_compactMembers members) (List.cons.inj h).2).1
  · intro h
    rw [compact, compact, compactMembers_eq_map, compactMembers_eq_map, h]

end Lexicolor.Json
