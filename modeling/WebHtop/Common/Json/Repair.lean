import WebHtop.Common.Json.RoundTrip

/-!
# String literals for arbitrary bytes

Linux names are byte strings. The writer escapes a byte that starts no UTF-8 sequence by its
number, and the reader turns the number into a character: what comes back is the repaired
name, and every later round leaves it alone.
-/

namespace WebHtop.Common

open WebHtop.Lib WebHtop.Lib.Json

/-- Well-formed UTF-8 without control characters. -/
def Printable (b : Bytes) : Prop := Utf8.WellFormed b ∧ ∀ c ∈ b, 0x20 ≤ c.toNat

theorem Printable.append {a b : Bytes} (ha : Printable a) (hb : Printable b) :
    Printable (a ++ b) := by
  refine ⟨ha.1.append hb.1, fun c hc => ?_⟩
  rcases List.mem_append.mp hc with hc | hc
  · exact ha.2 c hc
  · exact hb.2 c hc

def isPrintable (c : UInt8) : Bool := decide (0x20 ≤ c.toNat) && decide (c.toNat < 0x80)

theorem printable_ascii {b : Bytes} (h : b.all isPrintable = true) : Printable b := by
  simp only [List.all_eq_true, isPrintable, Bool.and_eq_true, decide_eq_true_eq] at h
  exact ⟨wellFormed_of_ascii (List.all_eq_true.mpr fun c hc => decide_eq_true (h c hc).2),
    fun c hc => (h c hc).1⟩

theorem hexChar_printable {n : Nat} (h : n < 16) : isPrintable (hexChar n) = true := by
  have hn : (hexChar n).toNat = if n < 10 then n + 48 else n + 87 :=
    Utf8.toNat_ofNat (by split <;> omega)
  simp only [isPrintable, hn, Bool.and_eq_true, decide_eq_true_eq]
  split <;> omega

theorem printable_formatUnicode (c : UInt8) : Printable (formatUnicode c) := by
  have hc := c.toNat_lt
  have hhigh := hexChar_printable (n := c.toNat / 16) (by omega)
  have hlow := hexChar_printable (n := c.toNat % 16) (by omega)
  have hfront : Printable (lit "\\u" ++ [ch '0', ch '0']) := printable_ascii rfl
  refine hfront.append (printable_ascii ?_)
  rw [List.all_cons, List.all_cons, hhigh, hlow]
  rfl

theorem printable_escapeAscii {c : UInt8} (hc : c.toNat < 128) : Printable (escapeAscii c) := by
  unfold escapeAscii
  split_ifs with h1 h2 h3 h4 h5 h6 h7 h8
  · exact printable_ascii rfl
  · exact printable_ascii rfl
  · exact printable_ascii rfl
  · exact printable_ascii rfl
  · exact printable_ascii rfl
  · exact printable_ascii rfl
  · exact printable_ascii rfl
  · exact printable_formatUnicode c
  · have hlow : 0x20 ≤ c.toNat := by rwa [UInt8.lt_iff_toNat_lt, Nat.not_lt] at h8
    refine printable_ascii ?_
    rw [List.all_cons, isPrintable, decide_eq_true hlow, decide_eq_true hc]
    rfl

theorem printable_encode {c : Char} (h : 0x20 ≤ c.val.toNat) : Printable (Utf8.encode c) := by
  refine ⟨Utf8.wellFormed_encode c, fun b hb => ?_⟩
  by_contra hlt
  have hs := (Utf8.sequence_encode c).ascii hb (by omega)
  have := Utf8.encode_singleton hs
  omega

theorem printable_escapeLoop (b : Bytes) :
    ∀ fuel, b.length ≤ fuel → Printable (escapeLoop fuel b) := by
  have hnil : Printable [] := ⟨Utf8.wellFormed_nil, fun c hc => absurd hc List.not_mem_nil⟩
  induction b using Utf8.scan_induction with
  | nil =>
    intro fuel _
    cases fuel <;> exact hnil
  | sequence s sw hs ih =>
    intro fuel hf
    obtain ⟨c, rfl⟩ := hs.scalar
    have hpos := List.length_pos_iff.mpr (Utf8.encode_ne_nil c)
    rw [List.length_append] at hf
    obtain ⟨fuel, rfl⟩ := Nat.exists_eq_add_one_of_ne_zero (by omega : fuel ≠ 0)
    have hrest := ih fuel (by omega)
    by_cases hc : c.val.toNat < 128
    · have hn := Utf8.toNat_ofNat (show c.val.toNat < 256 by omega)
      rw [Utf8.encode_of_lt hc, List.singleton_append, escapeLoop_ascii (by omega)]
      exact (printable_escapeAscii (by omega)).append hrest
    · rw [escapeLoop_wide (by omega)]
      exact (printable_encode (by omega)).append hrest
  | byte c sw h ih =>
    intro fuel hf
    rw [List.length_cons] at hf
    obtain ⟨fuel, rfl⟩ := Nat.exists_eq_add_one_of_ne_zero (by omega : fuel ≠ 0)
    rw [escapeLoop_byte h]
    exact (printable_formatUnicode c).append (ih fuel (by omega))

theorem printable_literal (b : Bytes) : Printable (appendEscapedString b) := by
  have hquote : Printable [ch '"'] := printable_ascii rfl
  exact (hquote.append (printable_escapeLoop b _ (Nat.le_refl _))).append hquote

theorem parseString_literal (b rest : Bytes) :
    parseString (appendEscapedString b ++ rest) = some (Utf8.repair b, rest) := by
  obtain ⟨body, hbody, h⟩ := appendEscapedString_repair b rest
  rw [hbody]
  exact parseString_of_stringBody h

/-- A literal is printable, is consumed whole and reads as the repaired text, which a second
round does not change. -/
theorem literal_repairs (b : Bytes) :
    Printable (appendEscapedString b) ∧
      (∀ rest, parseString (appendEscapedString b ++ rest) = some (Utf8.repair b, rest)) ∧
      (Utf8.repair b = b ↔ Utf8.WellFormed b) ∧
      ∀ rest, parseString (appendEscapedString (Utf8.repair b) ++ rest) =
        some (Utf8.repair b, rest) := by
  refine ⟨printable_literal b, parseString_literal b, Utf8.repair_eq_iff, fun rest => ?_⟩
  rw [parseString_literal, Utf8.repair_wellFormed (Utf8.wellFormed_repair b)]

-- A truncated sequence in front of a quotation mark.
example : Utf8.repair [0xE2, 0x82, 0x22] = [0xC3, 0xA2, 0xC2, 0x82, 0x22] := by decide

end WebHtop.Common
