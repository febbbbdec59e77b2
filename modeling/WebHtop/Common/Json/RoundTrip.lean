import WebHtop.Common.Doubles
import WebHtop.Common.Json.Completeness

/-!
# What is written can be read back

The text of a tree derives the tree as it is read back: a non-negative integer comes
back unsigned, and a double as whatever number its text is. The layout is whitespace.
-/

namespace WebHtop.Common

open WebHtop.Lib WebHtop.Lib.Json WebHtop.Lib.Decimal

/-! ## Strings -/

theorem hexValue_hexChar {n : Nat} (h : n < 16) : hexValue (hexChar n) = some n := by
  have hn : (hexChar n).toNat = if n < 10 then n + 48 else n + 87 := by
    unfold hexChar
    split <;> exact Utf8.toNat_ofNat (by omega)
  simp only [hexValue, hn]
  split_ifs <;> first | omega | simp

theorem hex4_formatUnicode {n : Nat} (h : n < 256) :
    Hex4 [0x30, 0x30, hexChar (n / 16), hexChar (n % 16)] n := by
  have hz : hexValue 0x30 = some 0 := rfl
  have := Hex4.mk hz hz (hexValue_hexChar (n := n / 16) (by omega))
    (hexValue_hexChar (n := n % 16) (by omega))
  rwa [show ((0 * 16 + 0) * 16 + n / 16) * 16 + n % 16 = n by omega] at this

/-- The text of one byte below 128 denotes it. -/
theorem escapeAscii_body {c : UInt8} (hc : c.toNat < 128) {s d t : Bytes} (h : StringBody s d t) :
    StringBody (escapeAscii c ++ s) (c :: d) t := by
  obtain ⟨x, hx⟩ := (Utf8.Sequence.one hc).scalar
  have hval := Utf8.encode_singleton hx
  unfold escapeAscii
  split_ifs with h1 h2 h3 h4 h5 h6 h7 h8
  · subst h1; exact .escape (e := 0x22) rfl h
  · subst h2; exact .escape (e := 0x5C) rfl h
  · subst h3; exact .escape (e := 0x62) rfl h
  · subst h4; exact .escape (e := 0x66) rfl h
  · subst h5; exact .escape (e := 0x6E) rfl h
  · subst h6; exact .escape (e := 0x72) rfl h
  · subst h7; exact .escape (e := 0x74) rfl h
  · have hh := hex4_formatUnicode c.toNat_lt
    rw [← hval] at hh
    have := StringBody.unicode x hh h
    rw [hx, hval] at this
    exact this
  · have := StringBody.char x (unescaped_of_byte hx h1 h2
      (by rwa [UInt8.lt_iff_toNat_lt, Nat.not_lt] at h8)) h
    rwa [hx] at this

theorem escapeLoop_ascii {c : UInt8} (hc : c.toNat < 128) (fuel : Nat) (sw : Bytes) :
    escapeLoop (fuel + 1) (c :: sw) = escapeAscii c ++ escapeLoop fuel sw := by
  rw [escapeLoop, if_neg (by rw [ge_iff_le, UInt8.le_iff_toNat_le]; exact Nat.not_le.mpr hc)]

theorem escapeLoop_wide {c : Char} (hc : 128 ≤ c.val.toNat) (fuel : Nat) (sw : Bytes) :
    escapeLoop (fuel + 1) (Utf8.encode c ++ sw) = Utf8.encode c ++ escapeLoop fuel sw := by
  obtain ⟨b, bs, hb⟩ := List.exists_cons_of_ne_nil (Utf8.encode_ne_nil c)
  have hge : ¬ b.toNat < 128 := by
    intro hlt
    have hs := (Utf8.sequence_encode c).ascii (hb ▸ List.mem_cons_self) hlt
    have := Utf8.encode_singleton hs
    omega
  have hlength := utf8Length_encode c sw
  have htake : (Utf8.encode c ++ sw).take (Utf8.encode c).length = Utf8.encode c := List.take_left
  have hdrop : (Utf8.encode c ++ sw).drop (Utf8.encode c).length = sw := List.drop_left
  have hne : (Utf8.encode c).length ≠ 0 := by simp [hb]
  rw [hb, List.cons_append] at hlength htake hdrop ⊢
  rw [escapeLoop, if_pos (by rw [ge_iff_le, UInt8.le_iff_toNat_le]; exact Nat.not_lt.mp hge)]
  simp only [hlength]
  rw [if_pos (by simp), htake, hdrop, List.cons_append]

/-- Where no sequence starts, the byte is written by its number. -/
theorem escapeLoop_byte {c : UInt8} {sw : Bytes} (h : Utf8.sequenceAt (c :: sw) = none) (fuel : Nat) :
    escapeLoop (fuel + 1) (c :: sw) = formatUnicode c ++ escapeLoop fuel sw := by
  have hc : c ≥ 128 := by
    by_contra hlt
    rw [ge_iff_le, UInt8.not_le, UInt8.lt_iff_toNat_lt] at hlt
    have hat := Utf8.sequenceAt_eq.mpr ⟨Utf8.Sequence.one hlt, List.prefix_append [c] sw⟩
    rw [List.singleton_append, h] at hat
    cases hat
  have hlength : utf8Length (c :: sw) 0 = 0 := by
    by_contra hne
    have hat := Utf8.sequenceAt_eq.mpr ⟨sequence_of_utf8Length hne, List.take_prefix _ _⟩
    rw [h] at hat
    cases hat
  rw [escapeLoop, if_pos hc]
  simp only [hlength, ne_eq, not_true_eq_false, ↓reduceIte]

/-- The loop writes a string body for the repaired text. -/
theorem escapeLoop_body (b t : Bytes) :
    ∀ fuel, b.length ≤ fuel →
      StringBody (escapeLoop fuel b ++ 0x22 :: t) (Utf8.repair b) t := by
  induction b using Utf8.scan_induction with
  | nil =>
      intro fuel _
      cases fuel <;> exact .close
  | sequence s sw hs ih =>
      intro fuel hf
      obtain ⟨c, rfl⟩ := hs.scalar
      have hpos := List.length_pos_iff.mpr (Utf8.encode_ne_nil c)
      rw [List.length_append] at hf
      obtain ⟨fuel, rfl⟩ := Nat.exists_eq_add_one_of_ne_zero (by omega : fuel ≠ 0)
      have hbody := ih fuel (by omega)
      rw [Utf8.repair_sequence hs]
      by_cases hc : c.val.toNat < 128
      · have hn := Utf8.toNat_ofNat (show c.val.toNat < 256 by omega)
        rw [Utf8.encode_of_lt hc, List.singleton_append, escapeLoop_ascii (by omega), List.append_assoc]
        exact escapeAscii_body (by omega) hbody
      · rw [escapeLoop_wide (by omega), List.append_assoc]
        exact .char c ⟨by omega, by omega, by omega⟩ hbody
  | byte c sw h ih =>
      intro fuel hf
      rw [List.length_cons] at hf
      obtain ⟨fuel, rfl⟩ := Nat.exists_eq_add_one_of_ne_zero (by omega : fuel ≠ 0)
      have hh : Hex4 _ (Utf8.latin c).val.toNat := hex4_formatUnicode c.toNat_lt
      rw [escapeLoop_byte h, Utf8.repair_byte h, List.append_assoc, ← Utf8.encode_latin]
      exact .unicode (Utf8.latin c) hh (ih fuel (by omega))

/-- Behind its first quotation mark, the literal is the repaired text, whatever follows. -/
theorem appendEscapedString_repair (s t : Bytes) :
    ∃ body, appendEscapedString s ++ t = 0x22 :: body ∧ StringBody body (Utf8.repair s) t := by
  refine ⟨_, ?_, escapeLoop_body s t _ (Nat.le_refl _)⟩
  simp [appendEscapedString, ch]

/-! ## Integers -/

variable {D E : Type} [Double D]

/-- An integer of the 64-bit types as it is read back. -/
def integer (i : Int) : JSONValue D :=
  if 0 ≤ i then .uint64 (UInt64.ofNat i.toNat) else .int64 (Int64.ofInt i)

theorem intToString_number {i : Int} (h1 : -2 ^ 63 ≤ i) (h2 : i < 2 ^ 64) :
    Number (D := D) (intToString i) (integer i) := by
  unfold intToString integer
  by_cases hi : i < 0
  · rw [if_pos hi, if_neg (by omega)]
    have := Number.neg (D := D) (intPart_numeral i.natAbs) (by rw [value_numeral]; omega)
    rwa [value_numeral, show -(i.natAbs : Int) = i by omega] at this
  · rw [if_neg hi, if_pos (by omega)]
    have := Number.nonneg (D := D) (intPart_numeral i.natAbs) (by rw [value_numeral]; omega)
    have heq : i.natAbs = i.toNat := by omega
    rw [value_numeral, heq] at this
    rwa [heq]

/-! ## Trees -/

namespace JSONValue

mutual

/-- A tree as it is read back when `int i` and `real d` are what the texts of the integer
`i` and of the double `d` denote. -/
def reread (int : Int → JSONValue E) (real : D → JSONValue E) (v : JSONValue D) : JSONValue E :=
  match v with
  | .null => .null
  | .bool b => .bool b
  | .int64 i => int i.toInt
  | .uint64 u => int u.toNat
  | .double d => real d
  | .string s => .string s
  | .array items => .array (rereadItems int real items)
  | .object members => .object (rereadMembers int real members)
termination_by structural v

def rereadItems (int : Int → JSONValue E) (real : D → JSONValue E) (vs : List (JSONValue D)) :
    List (JSONValue E) :=
  match vs with
  | [] => []
  | v :: vs => reread int real v :: rereadItems int real vs
termination_by structural vs

def rereadMembers (int : Int → JSONValue E) (real : D → JSONValue E)
    (ms : List (Bytes × JSONValue D)) : List (Bytes × JSONValue E) :=
  match ms with
  | [] => []
  | (key, v) :: ms => (key, reread int real v) :: rereadMembers int real ms
termination_by structural ms

end

mutual

/-- Strings and keys are well-formed UTF-8, and every double has the property `real`. -/
def Clean (real : D → Prop) (v : JSONValue D) : Prop :=
  match v with
  | .double d => real d
  | .string s => Utf8.WellFormed s
  | .array items => CleanItems real items
  | .object members => CleanMembers real members
  | _ => True
termination_by structural v

def CleanItems (real : D → Prop) (vs : List (JSONValue D)) : Prop :=
  match vs with
  | [] => True
  | v :: vs => Clean real v ∧ CleanItems real vs
termination_by structural vs

def CleanMembers (real : D → Prop) (ms : List (Bytes × JSONValue D)) : Prop :=
  match ms with
  | [] => True
  | (key, v) :: ms => Utf8.WellFormed key ∧ Clean real v ∧ CleanMembers real ms
termination_by structural ms

end

mutual

/-- A tree with its strings and keys repaired: what the writer says of arbitrary bytes. -/
def repaired (v : JSONValue D) : JSONValue D :=
  match v with
  | .string s => .string (Utf8.repair s)
  | .array items => .array (repairedItems items)
  | .object members => .object (repairedMembers members)
  | v => v
termination_by structural v

def repairedItems (vs : List (JSONValue D)) : List (JSONValue D) :=
  match vs with
  | [] => []
  | v :: vs => repaired v :: repairedItems vs
termination_by structural vs

def repairedMembers (ms : List (Bytes × JSONValue D)) : List (Bytes × JSONValue D) :=
  match ms with
  | [] => []
  | (key, v) :: ms => (Utf8.repair key, repaired v) :: repairedMembers ms
termination_by structural ms

end

omit [Double D] in
/-- A repair changes nothing where the strings are well-formed. -/
theorem repaired_clean {P : D → Prop} (v : JSONValue D) : v.Clean P → v.repaired = v := by
  refine @JSONValue.rec D (fun v => v.Clean P → v.repaired = v)
    (fun vs => CleanItems P vs → repairedItems vs = vs)
    (fun ms => CleanMembers P ms → repairedMembers ms = ms)
    (fun m => m.2.Clean P → m.2.repaired = m.2)
    ?null ?bool ?int64 ?uint64 ?double ?string ?array ?object ?noItems ?items ?noMembers ?members
    ?member v
  case null => exact fun _ => rfl
  case bool => exact fun _ _ => rfl
  case int64 => exact fun _ _ => rfl
  case uint64 => exact fun _ _ => rfl
  case double => exact fun _ _ => rfl
  case string => exact fun s hc => congrArg JSONValue.string (Utf8.repair_wellFormed hc)
  case array => exact fun vs ih hc => congrArg JSONValue.array (ih hc)
  case object => exact fun ms ih hc => congrArg JSONValue.object (ih hc)
  case noItems => exact fun _ => rfl
  case items =>
      intro v vs hv hvs hc
      rw [repairedItems, hv hc.1, hvs hc.2]
  case noMembers => exact fun _ => rfl
  case members =>
      intro m ms hm hms hc
      rw [repairedMembers, Utf8.repair_wellFormed hc.1, hm hc.2.1, hms hc.2.2]
  case member => exact fun _ _ h => h

omit [Double D] in
/-- The strings of a repaired tree are well-formed. -/
theorem clean_repaired (v : JSONValue D) : v.repaired.Clean fun _ => True := by
  refine @JSONValue.rec D (fun v => v.repaired.Clean fun _ => True)
    (fun vs => CleanItems (fun _ => True) (repairedItems vs))
    (fun ms => CleanMembers (fun _ => True) (repairedMembers ms))
    (fun m => m.2.repaired.Clean fun _ => True)
    ?null ?bool ?int64 ?uint64 ?double ?string ?array ?object ?noItems ?items ?noMembers ?members
    ?member v
  case null => trivial
  case bool => exact fun _ => trivial
  case int64 => exact fun _ => trivial
  case uint64 => exact fun _ => trivial
  case double => exact fun _ => trivial
  case string => exact fun s => Utf8.wellFormed_repair s
  case array => exact fun _ ih => ih
  case object => exact fun _ ih => ih
  case noItems => trivial
  case items => exact fun _ _ hv hvs => ⟨hv, hvs⟩
  case noMembers => trivial
  case members => exact fun m _ hm hms => ⟨Utf8.wellFormed_repair m.1, hm, hms⟩
  case member => exact fun _ _ h => h

end JSONValue

open JSONValue

/-! ## The layout -/

theorem ws_replicate (n : Nat) (t : Bytes) : Ws (List.replicate n (ch ' ') ++ t) t := by
  induction n with
  | zero => exact .nil
  | succ n ih => exact .cons rfl ih

theorem appendIndent_ws (indent : Int32) (level : Nat) (t : Bytes) :
    Ws (appendIndent indent level ++ t) t := by
  unfold appendIndent
  split
  · exact .cons rfl (ws_replicate _ t)
  · exact .nil

/-- The separator of a key and its value. -/
theorem colon_ws (indent : Int32) (t : Bytes) :
    ∃ s, (if 0 ≤ indent.toInt then lit ": " else lit ":") ++ t = 0x3A :: s ∧ Ws s t := by
  split
  · exact ⟨ch ' ' :: t, rfl, .cons rfl .nil⟩
  · exact ⟨t, rfl, .nil⟩

/-! ## The text of a tree -/

section

variable {N : Bytes → JSONValue E → Prop} {int : Int → JSONValue E} {real : D → JSONValue E}
  {P : D → Prop}

def ValueWrites (N : Bytes → JSONValue E → Prop) (P : D → Prop) (int : Int → JSONValue E)
    (real : D → JSONValue E) (v : JSONValue D) : Prop :=
  ∀ indent level x, v.repaired.Clean P → v.serializeTo indent level = some x →
    ∀ t, ValueText N (x ++ t) (v.repaired.reread int real) t

def ItemsWrite (N : Bytes → JSONValue E → Prop) (P : D → Prop) (int : Int → JSONValue E)
    (real : D → JSONValue E) (vs : List (JSONValue D)) : Prop :=
  ∀ indent level x, CleanItems P (repairedItems vs) →
    serializeItems indent level vs = some x → vs ≠ [] → ∀ b t, Ws b (0x5D :: t) →
    ItemsText N (x ++ b) (rereadItems int real (repairedItems vs)) t

def MembersWrite (N : Bytes → JSONValue E → Prop) (P : D → Prop) (int : Int → JSONValue E)
    (real : D → JSONValue E) (ms : List (Bytes × JSONValue D)) : Prop :=
  ∀ indent level x, CleanMembers P (repairedMembers ms) →
    serializeMembers indent level ms = some x → ms ≠ [] → ∀ b t, Ws b (0x7D :: t) →
    MembersText N (x ++ b) (rereadMembers int real (repairedMembers ms)) t

theorem items_write {v : JSONValue D} {vs : List (JSONValue D)} (hv : ValueWrites N P int real v)
    (hvs : ItemsWrite N P int real vs) : ItemsWrite N P int real (v :: vs) := by
  intro indent level x hc hx _ b t hb
  simp only [repairedItems, CleanItems] at hc
  simp only [serializeItems, Option.bind_eq_bind, Option.bind_eq_some_iff] at hx
  obtain ⟨text, htext, rest, hrest, hx⟩ := hx
  obtain rfl := Option.some.inj hx
  cases vs with
  | nil =>
      obtain rfl := Option.some.inj hrest
      have := hv indent (level + 1) text hc.1 htext b
      simpa [repairedItems, rereadItems] using ItemsText.last (appendIndent_ws indent (level + 1) _) this hb
  | cons w ws =>
      have h1 := hv indent (level + 1) text hc.1 htext (0x2C :: (rest ++ b))
      have h2 := hvs indent level rest hc.2 hrest (by simp) b t hb
      have := ItemsText.more (appendIndent_ws indent (level + 1) _) h1 .nil h2
      simpa [repairedItems, rereadItems, lit] using this

theorem members_write {key : Bytes} {v : JSONValue D} {ms : List (Bytes × JSONValue D)}
    (hv : ValueWrites N P int real v) (hms : MembersWrite N P int real ms) :
    MembersWrite N P int real ((key, v) :: ms) := by
  intro indent level x hc hx _ b t hb
  simp only [repairedMembers, CleanMembers] at hc
  simp only [serializeMembers, Option.bind_eq_bind, Option.bind_eq_some_iff] at hx
  obtain ⟨text, htext, rest, hrest, hx⟩ := hx
  obtain rfl := Option.some.inj hx
  cases ms with
  | nil =>
      obtain rfl := Option.some.inj hrest
      have hvalue := hv indent (level + 1) text hc.2.1 htext b
      obtain ⟨c, hcolon, hws⟩ := colon_ws indent (text ++ b)
      obtain ⟨body, hbody, hkey⟩ := appendEscapedString_repair key (0x3A :: c)
      have := MembersText.last (appendIndent_ws indent (level + 1) _) hkey .nil hws hvalue hb
      rw [← hbody, ← hcolon] at this
      simpa [repairedMembers, rereadMembers] using this
  | cons m ms =>
      have hvalue := hv indent (level + 1) text hc.2.1 htext (0x2C :: (rest ++ b))
      have h2 := hms indent level rest hc.2.2 hrest (by simp) b t hb
      obtain ⟨c, hcolon, hws⟩ := colon_ws indent (text ++ 0x2C :: (rest ++ b))
      obtain ⟨body, hbody, hkey⟩ := appendEscapedString_repair key (0x3A :: c)
      have := MembersText.more (appendIndent_ws indent (level + 1) _) hkey .nil hws hvalue .nil h2
      rw [← hbody, ← hcolon] at this
      simpa [repairedMembers, rereadMembers, lit] using this

/-- The text of a tree derives the repaired tree as it is read back, in front of any other
text. -/
theorem serializeTo_text (hint : ∀ i : Int, -2 ^ 63 ≤ i → i < 2 ^ 64 → N (intToString i) (int i))
    (hreal : ∀ d x, P d → doubleText d = some x → N x (real d)) (v : JSONValue D) : ValueWrites N P int real v := by
  refine @JSONValue.rec D (ValueWrites N P int real) (ItemsWrite N P int real) (MembersWrite N P int real)
    (fun m => ValueWrites N P int real m.2) ?null ?bool ?int64 ?uint64 ?double ?string ?array ?object
    ?noItems ?items ?noMembers ?members ?member v
  case null =>
      intro indent level x _ hx t
      simp only [serializeTo] at hx
      obtain rfl := Option.some.inj hx
      exact .null
  case bool =>
      intro b indent level x _ hx t
      simp only [serializeTo] at hx
      obtain rfl := Option.some.inj hx
      cases b with
      | true => exact .boolTrue
      | false => exact .boolFalse
  case int64 =>
      intro i indent level x _ hx t
      simp only [serializeTo] at hx
      obtain rfl := Option.some.inj hx
      have h1 := i.le_toInt
      have h2 := i.toInt_lt
      exact .number (hint _ h1 (by omega))
  case uint64 =>
      intro u indent level x _ hx t
      simp only [serializeTo] at hx
      obtain rfl := Option.some.inj hx
      have h := u.toNat_lt
      exact .number (hint _ (by omega) (by omega))
  case double =>
      intro d indent level x hc hx t
      simp only [serializeTo] at hx
      exact .number (hreal d x hc hx)
  case string =>
      intro s indent level x _ hx t
      simp only [serializeTo] at hx
      obtain rfl := Option.some.inj hx
      obtain ⟨body, hbody, hs⟩ := appendEscapedString_repair s t
      rw [hbody]
      exact .string hs
  case array =>
      intro vs ih indent level x hc hx t
      simp only [serializeTo] at hx
      cases vs with
      | nil =>
          obtain rfl := Option.some.inj hx
          exact .emptyArray .nil
      | cons w ws =>
          simp only [List.isEmpty_cons, Bool.false_eq_true, if_false, Option.bind_eq_bind,
            Option.bind_eq_some_iff] at hx
          obtain ⟨text, htext, hx⟩ := hx
          obtain rfl := Option.some.inj hx
          have := ih indent level text hc htext (by simp) _ t (appendIndent_ws indent level _)
          simpa [lit, repaired, repairedItems, reread, rereadItems] using ValueText.array this
  case object =>
      intro ms ih indent level x hc hx t
      simp only [serializeTo] at hx
      cases ms with
      | nil =>
          obtain rfl := Option.some.inj hx
          exact .emptyObject .nil
      | cons m ms =>
          simp only [List.isEmpty_cons, Bool.false_eq_true, if_false, Option.bind_eq_bind,
            Option.bind_eq_some_iff] at hx
          obtain ⟨text, htext, hx⟩ := hx
          obtain rfl := Option.some.inj hx
          have := ih indent level text hc htext (by simp) _ t (appendIndent_ws indent level _)
          simpa [lit, repaired, repairedMembers, reread, rereadMembers] using ValueText.object this
  case noItems => exact fun _ _ _ _ _ hne => absurd rfl hne
  case items => exact fun v vs hv hvs => items_write hv hvs
  case noMembers => exact fun _ _ _ _ _ hne => absurd rfl hne
  case members => exact fun m ms hm hms => members_write hm hms
  case member => exact fun _ _ h => h

end

/-! ## The limits of the tree that comes back -/

omit [Double D]

/-- A value without components. -/
def Leaf (v : JSONValue D) : Prop := v.nodes = 1 ∧ v.depth = 1 ∧ ∀ n, v.KeysWithin n

theorem leaf_integer (i : Int) : Leaf (integer (D := D) i) := by
  unfold integer
  split <;> simp [Leaf, nodes, depth, KeysWithin]

theorem map_fst_reread (int : Int → JSONValue E) (real : D → JSONValue E) (ms : List (Bytes × JSONValue D)) :
    (rereadMembers int real ms).map Prod.fst = ms.map Prod.fst := by
  induction ms with
  | nil => rfl
  | cons m ms ih => simp [rereadMembers, ih]

/-- Reading back keeps the shape of the tree. -/
theorem reread_shape {int : Int → JSONValue E} {real : D → JSONValue E}
    (hint : ∀ i, Leaf (int i)) (hreal : ∀ d, Leaf (real d)) (n : Nat) (v : JSONValue D) : (v.reread int real).nodes = v.nodes ∧ (v.reread int real).depth = v.depth ∧
      ((v.reread int real).KeysWithin n ↔ v.KeysWithin n) := by
  refine @JSONValue.rec D
    (fun v => (v.reread int real).nodes = v.nodes ∧ (v.reread int real).depth = v.depth ∧
      ((v.reread int real).KeysWithin n ↔ v.KeysWithin n))
    (fun vs => nodesItems (rereadItems int real vs) = nodesItems vs ∧
      depthItems (rereadItems int real vs) = depthItems vs ∧
      (KeysWithinItems n (rereadItems int real vs) ↔ KeysWithinItems n vs))
    (fun ms => nodesMembers (rereadMembers int real ms) = nodesMembers ms ∧
      depthMembers (rereadMembers int real ms) = depthMembers ms ∧
      (KeysWithinMembers n (rereadMembers int real ms) ↔ KeysWithinMembers n ms))
    (fun m => (m.2.reread int real).nodes = m.2.nodes ∧ (m.2.reread int real).depth = m.2.depth ∧
      ((m.2.reread int real).KeysWithin n ↔ m.2.KeysWithin n))
    ?null ?bool ?int64 ?uint64 ?double ?string ?array ?object ?noItems ?items ?noMembers ?members
    ?member v
  case null => simp [reread, nodes, depth, KeysWithin]
  case bool => simp [reread, nodes, depth, KeysWithin]
  case int64 =>
      intro i
      obtain ⟨h1, h2, h3⟩ := hint i.toInt
      simp [reread, nodes, depth, KeysWithin, h1, h2, h3]
  case uint64 =>
      intro u
      obtain ⟨h1, h2, h3⟩ := hint u.toNat
      simp [reread, nodes, depth, KeysWithin, h1, h2, h3]
  case double =>
      intro d
      obtain ⟨h1, h2, h3⟩ := hreal d
      simp [reread, nodes, depth, KeysWithin, h1, h2, h3]
  case string => simp [reread, nodes, depth, KeysWithin]
  case array =>
      rintro vs ⟨h1, h2, h3⟩
      simp [reread, nodes, depth, KeysWithin, h1, h2, h3]
  case object =>
      rintro ms ⟨h1, h2, h3⟩
      have hlength : (rereadMembers int real ms).length = ms.length := by
        simpa using congrArg List.length (map_fst_reread int real ms)
      simp [reread, nodes, depth, KeysWithin, h1, h2, h3, map_fst_reread, hlength]
  case noItems => simp [rereadItems, nodesItems, depthItems, KeysWithinItems]
  case items =>
      rintro v vs ⟨h1, h2, h3⟩ ⟨h4, h5, h6⟩
      simp [rereadItems, nodesItems, depthItems, KeysWithinItems, h1, h2, h3, h4, h5, h6]
  case noMembers => simp [rereadMembers, nodesMembers, depthMembers, KeysWithinMembers]
  case members =>
      rintro m ms ⟨h1, h2, h3⟩ ⟨h4, h5, h6⟩
      simp [rereadMembers, nodesMembers, depthMembers, KeysWithinMembers, h1, h2, h3, h4, h5, h6]
  case member => exact fun _ _ h => h

/-- Text that fits is read back. -/
theorem parse_toString [Double D] [Double E] {real : D → JSONValue E} {P : D → Prop}
    (hreal : ∀ d x, P d → doubleText d = some x → Number x (real d))
    (hleaf : ∀ d, Leaf (real d)) {v : JSONValue D} (hc : v.Clean P) (hd : v.depth ≤ 64)
    (hn : v.nodes ≤ 1000000) (hk : v.KeysWithin 4096) {indent : Int32} {x : Bytes}
    (hx : v.toString indent = some x) (hlength : x.length ≤ 8 * 1024 * 1024) :
    parse x = some (v.reread integer real) := by
  have hrepaired := repaired_clean v hc
  have htext := serializeTo_text (N := Number) (fun _ => intToString_number) hreal v indent 0 x
    (hrepaired.symm ▸ hc) hx []
  rw [List.append_nil, hrepaired] at htext
  obtain ⟨h1, h2, h3⟩ := reread_shape leaf_integer hleaf 4096 v
  exact parse_complete hlength ⟨x, [], .nil, htext, .nil⟩ (by omega) (by omega) (h3.mpr hk)

/-- A tree is written when all its doubles are. -/
theorem serializeTo_isSome [Double D] {P : D → Prop} (hP : ∀ d, P d → (doubleText d).isSome = true)
    (v : JSONValue D) : v.Clean P → ∀ indent level, (v.serializeTo indent level).isSome = true := by
  refine @JSONValue.rec D
    (fun v => v.Clean P → ∀ indent level, (v.serializeTo indent level).isSome = true)
    (fun vs => CleanItems P vs → ∀ indent level, (serializeItems indent level vs).isSome = true)
    (fun ms => CleanMembers P ms →
      ∀ indent level, (serializeMembers indent level ms).isSome = true)
    (fun m => m.2.Clean P → ∀ indent level, (m.2.serializeTo indent level).isSome = true)
    ?null ?bool ?int64 ?uint64 ?double ?string ?array ?object ?noItems ?items ?noMembers ?members
    ?member v
  case null => exact fun _ _ _ => rfl
  case bool => exact fun _ _ _ _ => rfl
  case int64 => exact fun _ _ _ _ => rfl
  case uint64 => exact fun _ _ _ _ => rfl
  case double => exact fun d hc _ _ => hP d hc
  case string => exact fun _ _ _ _ => rfl
  case array =>
      intro vs ih hc indent level
      obtain ⟨text, htext⟩ := Option.isSome_iff_exists.mp (ih hc indent level)
      simp only [serializeTo, htext]
      split <;> rfl
  case object =>
      intro ms ih hc indent level
      obtain ⟨text, htext⟩ := Option.isSome_iff_exists.mp (ih hc indent level)
      simp only [serializeTo, htext]
      split <;> rfl
  case noItems => exact fun _ _ _ => rfl
  case items =>
      intro v vs hv hvs hc indent level
      simp only [CleanItems] at hc
      obtain ⟨text, htext⟩ := Option.isSome_iff_exists.mp (hv hc.1 indent (level + 1))
      obtain ⟨rest, hrest⟩ := Option.isSome_iff_exists.mp (hvs hc.2 indent level)
      simp [serializeItems, htext, hrest]
  case noMembers => exact fun _ _ _ => rfl
  case members =>
      intro m ms hm hms hc indent level
      simp only [CleanMembers] at hc
      obtain ⟨text, htext⟩ := Option.isSome_iff_exists.mp (hm hc.2.1 indent (level + 1))
      obtain ⟨rest, hrest⟩ := Option.isSome_iff_exists.mp (hms hc.2.2 indent level)
      simp [serializeMembers, htext, hrest]
  case member => exact fun _ _ h => h

/-- A tree with its integers in one form each: the unsigned one where there is a choice. -/
def JSONValue.unified (v : JSONValue D) : JSONValue D := v.reread integer .double

/-- Every layout of a tree of integers, strings, arrays and objects that fits reads back
as that tree. -/
theorem integer_tree_round_trip [Double D] (v : JSONValue D) (hc : v.Clean fun _ => False)
    (hd : v.depth ≤ 64) (hn : v.nodes ≤ 1000000) (hk : v.KeysWithin 4096) (indent : Int32) :
    ∃ x, v.toString indent = some x ∧
      (x.length ≤ 8 * 1024 * 1024 → parse x = some v.unified) := by
  obtain ⟨x, hx⟩ := Option.isSome_iff_exists.mp
    (serializeTo_isSome (P := fun _ : D => False) (fun _ h => h.elim) v hc indent 0)
  exact ⟨x, hx, fun hlength => parse_toString (fun _ _ h => h.elim)
    (fun _ => ⟨by simp [nodes], by simp [depth], by simp [KeysWithin]⟩) hc hd hn hk hx hlength⟩

/-- A pretty-printed object with a negative number, an array and an escaped string. -/
theorem integer_tree_round_trip_pretty :
    let v : JSONValue Integral := .object [
      (lit "a", .array [.int64 (-1), .uint64 2, .null]), (lit "b", .string (lit "\"\n"))]
    ∃ x, v.toString 2 = some x ∧ (x.length ≤ 8 * 1024 * 1024 → parse x = some v.unified) := by
  refine integer_tree_round_trip _ ?_ (by decide) (by decide) ?_ 2
  · exact ⟨⟨['a'], rfl⟩, ⟨trivial, trivial, trivial, trivial⟩, ⟨['b'], rfl⟩, ⟨['"', '\n'], rfl⟩,
      trivial⟩
  · exact ⟨by decide, by decide, ⟨trivial, trivial, trivial, trivial⟩, trivial, trivial⟩

end WebHtop.Common
