import WebHtop.Server.Http.HttpRequest

/-!
# The requests that are accepted

The grammar of a request, stated on its lines: what the search for positions, the extraction of
words and the loop over the headers accept together. The result does not depend on the order of the
header lines or on the case of their names.
-/

namespace WebHtop.Server.Http

open WebHtop.Lib WebHtop.Lib.Lines

/-! ## The grammar -/

/-- A header line: a name, a colon and a value. -/
structure Header (row name value : Bytes) : Prop where
  eq : row = name ++ ch ':' :: value
  nonempty : name ≠ []
  token : name.all isToken = true
  printable : (trim value).any isControl = false

/-- The field has that name, whatever its case. -/
def Named (name : String) (field : Bytes × Bytes) : Prop := field.1.map toLower = lit name

/-- Names and values of the header lines that a request may have. -/
structure Fields (version : Bytes) (fields : List (Bytes × Bytes)) : Prop where
  distinct : (fields.map fun field => field.1.map toLower).Nodup
  host : version = lit "HTTP/1.1" → ∃ field ∈ fields, Named "host" field ∧ trim field.2 ≠ []
  encoding : ∀ field ∈ fields, ¬ Named "transfer-encoding" field
  expect : ∀ field ∈ fields, ¬ Named "expect" field
  length : ∀ field ∈ fields, Named "content-length" field →
    trim field.2 ≠ [] ∧ ∀ c ∈ trim field.2, c = ch '0'

/-- A request that is accepted. -/
structure Accepted (text target : Bytes) : Prop where
  size : text.length ≤ 8192
  /-- The text ends with its first empty line. -/
  ends : [cr, lf, cr, lf] <:+ text ∧
    ∀ before after, text = before ++ [cr, lf, cr, lf] ++ after → after = []
  lines : ∃ first rows version fields,
    text = headed cr lf first rows [cr, lf] ∧ (∀ line ∈ first :: rows, Line cr lf line) ∧
      Istream.Words first [lit "GET", target, version] ∧
      (version = lit "HTTP/1.0" ∨ version = lit "HTTP/1.1") ∧
      List.Forall₂ (fun row field => Header row field.1 field.2) rows fields ∧
      Fields version fields
  slash : target.head? = some (ch '/')
  visible : ∀ c ∈ target, 33 ≤ c ∧ c ≤ 126

/-- Two header lines that differ in the case of the name only. A line without a colon has no
name. -/
def SameField (row row' : Bytes) : Prop :=
  row = row' ∨ ∃ name name' value, row = name ++ ch ':' :: value ∧ row' = name' ++ ch ':' :: value ∧
    name.map toLower = name'.map toLower ∧ ch ':' ∉ name

/-- The same header lines in any order, their names in any case. -/
def Respelled (rows rows' : List Bytes) : Prop :=
  ∃ rows'', rows.Perm rows'' ∧ List.Forall₂ SameField rows'' rows'

/-! ## Case of names -/

theorem isAlnum_lower {c : UInt8} (h : 65 ≤ c ∧ c ≤ 90) :
    isAlnum c = true ∧ isAlnum (c + 32) = true := by
  have hlow : 65 ≤ c.toNat := UInt8.le_iff_toNat_le.mp h.1
  have hhigh : c.toNat ≤ 90 := UInt8.le_iff_toNat_le.mp h.2
  have hadd : (c + 32).toNat = c.toNat + 32 := by
    rw [UInt8.toNat_add]
    exact Nat.mod_eq_of_lt (show c.toNat + 32 < 256 by omega)
  have h97 : 97 ≤ c + 32 := by
    rw [UInt8.le_iff_toNat_le, hadd]
    show 97 ≤ _
    omega
  have h122 : c + 32 ≤ 122 := by
    rw [UInt8.le_iff_toNat_le, hadd]
    show _ ≤ 122
    omega
  simp [isAlnum, h.1, h.2, h97, h122]

theorem isToken_toLower (c : UInt8) : isToken (toLower c) = isToken c := by
  unfold toLower
  split
  · rename_i h
    obtain ⟨hc, hlower⟩ := isAlnum_lower h
    rw [isToken, isToken, hc, hlower, Bool.true_or, Bool.true_or]
  · rfl

/-- What is no letter or digit has one case only. -/
theorem toLower_eq_iff {c d : UInt8} (h : isAlnum d = false) : toLower c = d ↔ c = d := by
  have hd : toLower d = d := by
    refine if_neg fun hd => ?_
    rw [(isAlnum_lower hd).1] at h
    cases h
  constructor
  · intro hc
    unfold toLower at hc
    split at hc
    · rename_i hletter
      rw [← hc, (isAlnum_lower hletter).2] at h
      cases h
    · exact hc
  · rintro rfl
    exact hd

theorem line_toLower_iff {row : Bytes} : Line cr lf (row.map toLower) ↔ Line cr lf row := by
  have hpair : [cr, lf].map toLower = [cr, lf] := rfl
  refine not_congr ⟨fun h => ?_, fun h => hpair ▸ h.map toLower⟩
  obtain ⟨pair, hinfix, heq⟩ := List.infix_map_iff.mp h
  have hlength : pair.length = 2 := by simpa using (congrArg List.length heq).symm
  obtain ⟨c, d, rfl⟩ := List.length_eq_two.mp hlength
  obtain ⟨hc, hd⟩ : cr = toLower c ∧ lf = toLower d := by simpa using heq
  obtain rfl := (toLower_eq_iff rfl).mp hc.symm
  obtain rfl := (toLower_eq_iff rfl).mp hd.symm
  exact hinfix

/-! ## One header line -/

theorem findIdx_colon {name : Bytes} (h : ch ':' ∉ name) (value : Bytes) :
    (name ++ ch ':' :: value).findIdx? (fun c => c = ch ':') = some name.length := by
  have hnone : name.findIdx? (fun c => decide (c = ch ':')) = none :=
    List.findIdx?_eq_none_iff.mpr fun c hc => decide_eq_false fun he => h (he ▸ hc)
  rw [List.findIdx?_append, hnone, List.findIdx?_cons]
  simp

/-- A line is cut at its first colon. -/
theorem header_eq {name : Bytes} (h : ch ':' ∉ name) (value : Bytes) :
    header (name ++ ch ':' :: value) =
      if name = [] then none
      else if name.all isToken && !(trim value).any isControl then
        some (name.map toLower, trim value)
      else none := by
  rw [header, findIdx_colon h]
  cases name with
  | nil => rfl
  | cons c name =>
    have htake : (c :: name ++ ch ':' :: value).take (name.length + 1) = c :: name :=
      List.take_left' rfl
    have hdrop : (c :: name ++ ch ':' :: value).drop (name.length + 2) = value := by
      have happend : c :: name ++ ch ':' :: value = (c :: name ++ [ch ':']) ++ value := by simp
      rw [happend]
      exact List.drop_left' (by simp)
    simp only [List.length_cons, htake, hdrop]
    rfl

theorem header_no_colon {row : Bytes} (h : ch ':' ∉ row) : header row = none := by
  have hnone : row.findIdx? (fun c => decide (c = ch ':')) = none :=
    List.findIdx?_eq_none_iff.mpr fun c hc => decide_eq_false fun he => h (he ▸ hc)
  rw [header, hnone]

theorem exists_colon {row : Bytes} (h : ch ':' ∈ row) :
    ∃ name value, row = name ++ ch ':' :: value ∧ ch ':' ∉ name := by
  obtain ⟨name, value, heq, hnot⟩ := List.eq_append_cons_of_mem h
  exact ⟨name, value, heq, hnot⟩

theorem Header.no_colon {row name value : Bytes} (h : Header row name value) : ch ':' ∉ name := by
  intro hmem
  have := (List.all_eq_true.mp h.token) _ hmem
  revert this
  decide

theorem header_iff {row key text : Bytes} :
    header row = some (key, text) ↔
      ∃ name value, Header row name value ∧ key = name.map toLower ∧ text = trim value := by
  constructor
  · intro h
    have hmem : ch ':' ∈ row := by
      by_contra hno
      rw [header_no_colon hno] at h
      cases h
    obtain ⟨name, value, rfl, hno⟩ := exists_colon hmem
    rw [header_eq hno] at h
    split at h
    · cases h
    · rename_i hne
      split at h
      · rename_i hok
        obtain ⟨htoken, hprintable⟩ := Bool.and_eq_true_iff.mp hok
        obtain ⟨rfl, rfl⟩ := Prod.mk.inj (Option.some.inj h)
        exact ⟨name, value, ⟨rfl, hne, htoken, by simpa using hprintable⟩, rfl, rfl⟩
      · cases h
  · rintro ⟨name, value, h, rfl, rfl⟩
    obtain rfl := h.eq
    rw [header_eq h.no_colon, if_neg h.nonempty, h.token, h.printable]
    rfl

/-! ## Header lines in another case -/

theorem all_token_toLower (name : Bytes) : (name.map toLower).all isToken = name.all isToken := by
  rw [List.all_map]
  exact congrArg (name.all ·) (funext isToken_toLower)

theorem SameField.header_eq {row row' : Bytes} (h : SameField row row') :
    header row' = header row := by
  rcases h with rfl | ⟨name, name', value, rfl, rfl, hcase, hno⟩
  · rfl
  · have hmap : ch ':' ∉ name'.map toLower := by
      rw [← hcase]
      intro hmem
      obtain ⟨c, hc, heq⟩ := List.mem_map.mp hmem
      obtain rfl := (toLower_eq_iff rfl).mp heq
      exact hno hc
    have hno' : ch ':' ∉ name' := fun hmem => hmap (List.mem_map.mpr ⟨_, hmem, rfl⟩)
    have hempty : name' = [] ↔ name = [] := by
      rw [← List.map_eq_nil_iff (f := toLower), ← hcase, List.map_eq_nil_iff]
    have htoken : name'.all isToken = name.all isToken := by
      rw [← all_token_toLower, ← hcase, all_token_toLower]
    rw [Http.header_eq hno, Http.header_eq hno', htoken, hcase]
    simp only [hempty]

theorem SameField.line {row row' : Bytes} (h : SameField row row')
    (hrow : Line cr lf row ∧ row ≠ []) : Line cr lf row' ∧ row' ≠ [] := by
  rcases h with rfl | ⟨name, name', value, rfl, rfl, hcase, -⟩
  · exact hrow
  · refine ⟨?_, by simp⟩
    rw [← line_toLower_iff, List.map_append, ← hcase, ← List.map_append, line_toLower_iff]
    exact hrow.1

theorem SameField.length_eq {row row' : Bytes} (h : SameField row row') :
    row'.length = row.length := by
  rcases h with rfl | ⟨name, name', value, rfl, rfl, hcase, -⟩
  · rfl
  · have hlength := congrArg List.length hcase
    simp only [List.length_map] at hlength
    simp [hlength]

/-! ## The loop over the headers -/

/-- One turn of the loop, on a line. -/
def addHeader (headers : Table Bytes Bytes) (row : Bytes) : Option (Table Bytes Bytes) :=
  match header row with
  | none => none
  | some (key, value) =>
    if (headers.get key).isSome then none else some (headers ++ [(key, value)])

/-- The positions of the loop run through the lines before the empty one. -/
theorem headerLoop_rows {text rest : Bytes} {rows : List Bytes} {end_ pos : Nat}
    (hrows : Rows cr lf rows) (htext : text.drop pos = terminated cr lf rows ++ rest)
    (hend : end_ + 2 = pos + (terminated cr lf rows).length) (headers : Table Bytes Bytes) :
    headerLoop text end_ pos headers = rows.foldlM addHeader headers := by
  induction rows generalizing pos headers with
  | nil =>
    have hlength : (terminated cr lf []).length = 0 := rfl
    rw [headerLoop, if_neg (by omega)]
    rfl
  | cons row rows ih =>
    obtain ⟨hline, hne⟩ := hrows row List.mem_cons_self
    have hpos : 0 < row.length := List.length_pos_iff.mpr hne
    have hsplit : terminated cr lf (row :: rows) ++ rest =
        row ++ [cr, lf] ++ (terminated cr lf rows ++ rest) := by
      simp [terminated]
    have hlength : (terminated cr lf (row :: rows)).length =
        row.length + 2 + (terminated cr lf rows).length := by
      simp only [terminated, List.flatMap_cons, List.length_append, List.length_cons,
        List.length_nil]
    have hfind : find [cr, lf] (text.drop pos) = some row.length := by
      rw [htext, hsplit]
      exact find_line (by decide) hline _
    have htake : (text.drop pos).take row.length = row := by
      rw [htext, hsplit, List.append_assoc]
      exact List.take_left' rfl
    have hdrop : text.drop (pos + row.length + 2) = terminated cr lf rows ++ rest := by
      rw [Nat.add_assoc, ← List.drop_drop, htext, hsplit]
      exact List.drop_left' (by simp)
    rw [headerLoop, if_pos (by omega), hfind, List.foldlM_cons]
    simp only [htake, addHeader]
    cases hheader : header row with
    | none => rfl
    | some field =>
      obtain ⟨key, value⟩ := field
      simp only
      split
      · rfl
      · exact ih (fun r hr => hrows r (List.mem_cons_of_mem row hr)) hdrop (by omega) _

/-- The loop collects all fields when all lines are well-formed and no name comes twice. -/
theorem foldlM_addHeader {rows : List Bytes} {headers result : Table Bytes Bytes}
    (hn : headers.keys.Nodup) :
    rows.foldlM addHeader headers = some result ↔
      ∃ fields, rows.map header = fields.map some ∧ result = headers ++ fields ∧
        result.keys.Nodup := by
  induction rows generalizing headers with
  | nil =>
    simp only [List.foldlM_nil, List.map_nil]
    constructor
    · intro h
      obtain rfl := Option.some.inj h
      exact ⟨[], rfl, (List.append_nil _).symm, hn⟩
    · rintro ⟨fields, hfields, rfl, -⟩
      rw [List.map_eq_nil_iff.mp hfields.symm, List.append_nil]
      rfl
  | cons row rows ih =>
    rw [List.foldlM_cons, addHeader]
    cases hheader : header row with
    | none =>
      constructor
      · intro h
        cases h
      · rintro ⟨fields, hfields, -⟩
        cases fields with
        | nil => cases hfields
        | cons field fields =>
          rw [List.map_cons, hheader] at hfields
          cases hfields
    | some field =>
      obtain ⟨key, value⟩ := field
      by_cases hkey : (headers.get key).isSome = true
      · simp only [hkey, if_true]
        constructor
        · intro h
          cases h
        · rintro ⟨fields, hfields, rfl, hnodup⟩
          obtain ⟨old, hold⟩ := Option.isSome_iff_exists.mp hkey
          cases fields with
          | nil => cases hfields
          | cons field fields =>
            rw [List.map_cons, hheader, List.map_cons] at hfields
            obtain ⟨heq, -⟩ := List.cons.inj hfields
            obtain rfl := Option.some.inj heq
            rw [Table.keys, List.map_append, List.nodup_append] at hnodup
            exact absurd rfl (hnodup.2.2 key (Table.mem_keys_of_get hold) key (by simp))
      · have hnot : key ∉ headers.keys := by
          intro hmem
          obtain ⟨e, he, rfl⟩ := List.mem_map.mp hmem
          rw [Table.get_of_mem hn he] at hkey
          exact hkey rfl
        have hmore : (headers ++ [(key, value)]).keys.Nodup := by
          rw [Table.keys, List.map_append, List.nodup_append]
          refine ⟨hn, by simp, fun x hx y hy => ?_⟩
          obtain rfl : y = key := by simpa using hy
          exact fun he => hnot (he ▸ hx)
        simp only [hkey]
        rw [if_neg (by simp)]
        refine (ih hmore).trans ⟨?_, ?_⟩
        · rintro ⟨fields, hfields, rfl, hnodup⟩
          refine ⟨(key, value) :: fields, ?_, by simp, hnodup⟩
          rw [List.map_cons, hheader, hfields]
          rfl
        · rintro ⟨fields, hfields, rfl, hnodup⟩
          cases fields with
          | nil => cases hfields
          | cons field fields =>
            rw [List.map_cons, hheader, List.map_cons] at hfields
            obtain ⟨heq, htail⟩ := List.cons.inj hfields
            obtain rfl := Option.some.inj heq
            exact ⟨fields, htail, by simp, hnodup⟩

/-! ## The text as lines -/

/-- The part of the parser that sees lines. -/
def parseLines (first : Bytes) (rows : List Bytes) : HttpRequest :=
  match requestLine first with
  | none => bad
  | some (method, target, version) =>
    if method ≠ lit "GET" then bad 405
    else if version ≠ lit "HTTP/1.1" ∧ version ≠ lit "HTTP/1.0" then bad 505
    else if target.head? ≠ some (ch '/') then bad
    else if target.any fun c => c ≤ 32 || 127 ≤ c then bad
    else
      match rows.foldlM addHeader [] with
      | none => bad
      | some headers => checkHeaders target version headers

theorem cr_ne_lf : cr ≠ lf := by decide

theorem parse_headed {first : Bytes} {rows : List Bytes} (hfirst : Line cr lf first)
    (hrows : Rows cr lf rows) (tail : Bytes) :
    parseHttpRequest (headed cr lf first rows ([cr, lf] ++ tail)) =
      if tail ≠ [] then bad
      else if (headed cr lf first rows ([cr, lf] ++ tail)).length > 8192 then bad 431
      else parseLines first rows := by
  have hlength := length_headed (a := cr) (b := lf) first rows ([cr, lf] ++ tail)
  have hfind := find_blank cr_ne_lf hfirst hrows ([cr, lf] ++ tail)
  rw [if_pos (List.prefix_append _ _)] at hfind
  have hline := find_line cr_ne_lf hfirst (terminated cr lf rows ++ ([cr, lf] ++ tail))
  have hassoc : first ++ [cr, lf] ++ (terminated cr lf rows ++ ([cr, lf] ++ tail)) =
      headed cr lf first rows ([cr, lf] ++ tail) := by simp [headed]
  rw [hassoc] at hline
  generalize htext : headed cr lf first rows ([cr, lf] ++ tail) = text at *
  have htake : text.take first.length = first := by
    rw [← hassoc, List.append_assoc]
    exact List.take_left' rfl
  have hdrop : text.drop (first.length + 2) = terminated cr lf rows ++ ([cr, lf] ++ tail) := by
    rw [← hassoc]
    exact List.drop_left' (by simp)
  have hend : first.length + (terminated cr lf rows).length + 2 =
      first.length + 2 + (terminated cr lf rows).length := by omega
  have hloop := headerLoop_rows hrows hdrop hend []
  rw [List.length_append] at hlength
  have hpair : [cr, lf].length = 2 := rfl
  have htail : first.length + (terminated cr lf rows).length + 4 ≠ text.length ↔ tail ≠ [] := by
    rw [ne_eq, ne_eq, ← List.length_eq_zero_iff]
    omega
  rw [parseHttpRequest, hfind]
  simp only [hline, htake, hloop, htail]
  rfl

theorem parse_unended {text : Bytes} (h : ¬ [cr, lf, cr, lf] <:+: text) :
    parseHttpRequest text = bad := by
  rw [parseHttpRequest, find_eq_none_iff.mpr h]

theorem requestLine_iff {line method target version : Bytes} :
    requestLine line = some (method, target, version) ↔
      Istream.Words line [method, target, version] := by
  simp only [requestLine, Istream.words_cons_iff, Istream.words_nil_iff]
  constructor
  · intro h
    obtain ⟨⟨method', line₁⟩, h1, h⟩ := Option.bind_eq_some_iff.mp h
    obtain ⟨⟨target', line₂⟩, h2, h⟩ := Option.bind_eq_some_iff.mp h
    obtain ⟨⟨version', line₃⟩, h3, h⟩ := Option.bind_eq_some_iff.mp h
    simp only at h1 h2 h3 h
    split at h
    · cases h
    · rename_i hnone
      obtain ⟨rfl, hwords⟩ := Prod.mk.inj (Option.some.inj h)
      obtain ⟨rfl, rfl⟩ := Prod.mk.inj hwords
      exact ⟨line₁, h1, line₂, h2, line₃, h3, by simpa using hnone⟩
  · rintro ⟨line₁, h1, line₂, h2, line₃, h3, hnone⟩
    simp [h1, h2, h3, hnone]

/-! ## Fields -/

/-- What the loop stores of a field. -/
def stored (field : Bytes × Bytes) : Bytes × Bytes := (field.1.map toLower, trim field.2)

theorem headers_iff {rows : List Bytes} {headers : Table Bytes Bytes} :
    rows.map header = headers.map some ↔
      ∃ fields, List.Forall₂ (fun row field => Header row field.1 field.2) rows fields ∧
        headers = fields.map stored := by
  induction rows generalizing headers with
  | nil =>
    constructor
    · intro h
      exact ⟨[], .nil, List.map_eq_nil_iff.mp h.symm⟩
    · rintro ⟨fields, hfields, rfl⟩
      cases hfields
      rfl
  | cons row rows ih =>
    constructor
    · intro h
      cases headers with
      | nil => cases h
      | cons entry headers =>
        obtain ⟨hentry, hrest⟩ := List.cons.inj h
        obtain ⟨fields, hfields, rfl⟩ := ih.mp hrest
        obtain ⟨name, value, hheader, hname, hvalue⟩ := header_iff.mp hentry
        refine ⟨(name, value) :: fields, .cons hheader hfields, ?_⟩
        rw [List.map_cons, stored, ← hname, ← hvalue]
    · rintro ⟨fields, hfields, rfl⟩
      cases hfields with
      | cons hheader hfields =>
        rw [List.map_cons, List.map_cons, List.map_cons, ih.mpr ⟨_, hfields, rfl⟩]
        exact congrArg (· :: _) (header_iff.mpr ⟨_, _, hheader, rfl, rfl⟩)

theorem get_stored {fields : List (Bytes × Bytes)} (hn : (Table.keys (fields.map stored)).Nodup)
    {name : String} {value : Bytes} :
    Table.get (fields.map stored) (lit name) = some value ↔
      ∃ field ∈ fields, Named name field ∧ trim field.2 = value := by
  constructor
  · intro h
    obtain ⟨field, hmem, heq⟩ := List.mem_map.mp (Table.mem_of_get h)
    obtain ⟨hname, hvalue⟩ := Prod.mk.inj heq
    exact ⟨field, hmem, hname, hvalue⟩
  · rintro ⟨field, hmem, hname, rfl⟩
    have hstored : (lit name, trim field.2) = stored field := congrArg (·, trim field.2) hname.symm
    refine Table.get_of_mem hn ?_
    rw [hstored]
    exact List.mem_map_of_mem hmem

theorem get_stored_isSome {fields : List (Bytes × Bytes)}
    (hn : (Table.keys (fields.map stored)).Nodup) {name : String} :
    (Table.get (fields.map stored) (lit name)).isSome = true ↔ ∃ field ∈ fields, Named name field := by
  rw [Option.isSome_iff_exists]
  simp only [get_stored hn]
  constructor
  · rintro ⟨value, field, hmem, hname, -⟩
    exact ⟨field, hmem, hname⟩
  · rintro ⟨field, hmem, hname⟩
    exact ⟨_, field, hmem, hname, rfl⟩

/-- A decimal zero, with any number of digits. -/
theorem fromChars_zero_iff {s : Bytes} :
    fromChars s = some (0, []) ↔ s ≠ [] ∧ ∀ c ∈ s, c = ch '0' := by
  have hdigits : ∀ c ∈ s.takeWhile Decimal.isDigit, Decimal.isDigit c = true :=
    List.all_eq_true.mp List.all_takeWhile
  constructor
  · intro h
    rw [fromChars] at h
    split at h
    · cases h
    · rename_i hgood
      obtain ⟨hne, -⟩ := not_or.mp hgood
      obtain ⟨hvalue, hdrop⟩ := Prod.mk.inj (Option.some.inj h)
      have hall : s.takeWhile Decimal.isDigit = s := by
        conv_rhs => rw [← List.takeWhile_append_dropWhile (p := Decimal.isDigit) (l := s), hdrop]
        exact (List.append_nil _).symm
      rw [hall] at hdigits hne hvalue
      exact ⟨hne, (Decimal.value_eq_zero_iff hdigits).mp hvalue⟩
  · rintro ⟨hne, hzero⟩
    have hdigit : ∀ c ∈ s, Decimal.isDigit c = true := fun c hc => by rw [hzero c hc]; rfl
    have htake : s.takeWhile Decimal.isDigit = s := by
      have happend : (s ++ []).takeWhile Decimal.isDigit = s ++ [].takeWhile Decimal.isDigit :=
        List.takeWhile_append_of_pos hdigit
      simpa using happend
    have hdrop : s.dropWhile Decimal.isDigit = [] := by
      have hsplit := List.takeWhile_append_dropWhile (p := Decimal.isDigit) (l := s)
      rw [htake] at hsplit
      exact List.append_right_eq_self.mp hsplit
    have hvalue := (Decimal.value_eq_zero_iff hdigit).mpr hzero
    rw [fromChars, htake, hdrop, hvalue, if_neg (by simp [hne])]

theorem checkHeaders_iff {target target' version : Bytes} {fields : List (Bytes × Bytes)}
    (hn : (Table.keys (fields.map stored)).Nodup) :
    checkHeaders target version (fields.map stored) = ⟨200, target'⟩ ↔
      target = target' ∧ Fields version fields := by
  have hdistinct : (fields.map fun field => field.1.map toLower).Nodup := by
    rw [Table.keys, List.map_map] at hn
    exact hn
  have hhost : (Table.get (fields.map stored) (lit "host")).getD [] = [] ↔
      ¬ ∃ field ∈ fields, Named "host" field ∧ trim field.2 ≠ [] := by
    cases hget : Table.get (fields.map stored) (lit "host") with
    | none =>
      refine ⟨fun _ => ?_, fun _ => rfl⟩
      rintro ⟨field, hmem, hname, -⟩
      rw [(get_stored hn).mpr ⟨field, hmem, hname, rfl⟩] at hget
      cases hget
    | some value =>
      constructor
      · rintro rfl ⟨field, hmem, hname, hvalue⟩
        have := hget.symm.trans ((get_stored hn).mpr ⟨field, hmem, hname, rfl⟩)
        exact hvalue (Option.some.inj this).symm
      · intro hnone
        obtain ⟨field, hmem, hname, rfl⟩ := (get_stored hn).mp hget
        by_contra hvalue
        exact hnone ⟨field, hmem, hname, hvalue⟩
  have hlength : ((Table.get (fields.map stored) (lit "content-length")).any
      fun s => fromChars s ≠ some (0, [])) = true ↔ ∃ field ∈ fields,
        Named "content-length" field ∧ ¬ (trim field.2 ≠ [] ∧ ∀ c ∈ trim field.2, c = ch '0') := by
    simp only [Option.any_eq_true, decide_eq_true_eq, ne_eq, fromChars_zero_iff, get_stored hn]
    constructor
    · rintro ⟨value, ⟨field, hmem, hname, rfl⟩, hbad⟩
      exact ⟨field, hmem, hname, hbad⟩
    · rintro ⟨field, hmem, hname, hbad⟩
      exact ⟨_, ⟨field, hmem, hname, rfl⟩, hbad⟩
  have hencoding : (Table.get (fields.map stored) (lit "transfer-encoding")).isSome = true ↔
      ∃ field ∈ fields, Named "transfer-encoding" field := get_stored_isSome hn
  have hexpect : (Table.get (fields.map stored) (lit "expect")).isSome = true ↔
      ∃ field ∈ fields, Named "expect" field := get_stored_isSome hn
  rw [checkHeaders]
  constructor
  · intro h
    split at h
    · exact absurd h (bad_ne (by decide))
    split at h
    · exact absurd h (bad_ne (by decide))
    split at h
    · exact absurd h (bad_ne (by decide))
    split at h
    · exact absurd h (bad_ne (by decide))
    rename_i h1 h2 h3 h4
    refine ⟨congrArg HttpRequest.target h, ⟨hdistinct, fun hv => ?_, ?_, ?_, ?_⟩⟩
    · by_contra hno
      exact h1 ⟨hv, hhost.mpr hno⟩
    · exact fun field hmem hname => h2 (hencoding.mpr ⟨field, hmem, hname⟩)
    · exact fun field hmem hname => h3 (hexpect.mpr ⟨field, hmem, hname⟩)
    · intro field hmem hname
      by_contra hno
      exact h4 (hlength.mpr ⟨field, hmem, hname, hno⟩)
  · rintro ⟨rfl, h⟩
    have h1 : ¬ (version = lit "HTTP/1.1" ∧
        (Table.get (fields.map stored) (lit "host")).getD [] = []) :=
      fun hno => hhost.mp hno.2 (h.host hno.1)
    have h2 : ¬ (Table.get (fields.map stored) (lit "transfer-encoding")).isSome = true := by
      rw [hencoding]
      rintro ⟨field, hmem, hname⟩
      exact h.encoding field hmem hname
    have h3 : ¬ (Table.get (fields.map stored) (lit "expect")).isSome = true := by
      rw [hexpect]
      rintro ⟨field, hmem, hname⟩
      exact h.expect field hmem hname
    have h4 : ¬ ((Table.get (fields.map stored) (lit "content-length")).any
        fun s => fromChars s ≠ some (0, [])) = true := by
      rw [hlength]
      rintro ⟨field, hmem, hname, hno⟩
      exact hno (h.length field hmem hname)
    rw [if_neg h1, if_neg h2, if_neg h3, if_neg h4]

/-! ## What is accepted -/

theorem parseLines_iff {first : Bytes} {rows : List Bytes} {target : Bytes} :
    parseLines first rows = ⟨200, target⟩ ↔
      (∃ version fields, Istream.Words first [lit "GET", target, version] ∧
        (version = lit "HTTP/1.0" ∨ version = lit "HTTP/1.1") ∧
        List.Forall₂ (fun row field => Header row field.1 field.2) rows fields ∧
        Fields version fields) ∧
      target.head? = some (ch '/') ∧ ∀ c ∈ target, 33 ≤ c ∧ c ≤ 126 := by
  have hvisible : ∀ t : Bytes, (t.any fun c => c ≤ 32 || 127 ≤ c) = true ↔
      ¬ ∀ c ∈ t, 33 ≤ c ∧ c ≤ 126 := by
    intro t
    rw [List.any_eq_true, not_forall]
    simp only [not_forall, exists_prop, Bool.or_eq_true, decide_eq_true_eq, UInt8.le_iff_toNat_le]
    refine exists_congr fun c => and_congr_right fun _ => ?_
    show c.toNat ≤ 32 ∨ 127 ≤ c.toNat ↔ ¬ (33 ≤ c.toNat ∧ c.toNat ≤ 126)
    omega
  constructor
  · intro h
    rw [parseLines] at h
    cases hline : requestLine first with
    | none =>
      rw [hline] at h
      exact absurd h (bad_ne (by decide))
    | some words =>
      obtain ⟨method, target', version⟩ := words
      simp only [hline] at h
      split at h
      · exact absurd h (bad_ne (by decide))
      split at h
      · exact absurd h (bad_ne (by decide))
      split at h
      · exact absurd h (bad_ne (by decide))
      split at h
      · exact absurd h (bad_ne (by decide))
      rename_i hmethod hversion hslash hbytes
      cases hloop : rows.foldlM addHeader [] with
      | none =>
        rw [hloop] at h
        exact absurd h (bad_ne (by decide))
      | some headers =>
        rw [hloop] at h
        have hnil : (Table.keys ([] : Table Bytes Bytes)).Nodup := List.nodup_nil
        obtain ⟨entries, hentries, rfl, hn⟩ := (foldlM_addHeader hnil).mp hloop
        obtain ⟨fields, hfields, rfl⟩ := headers_iff.mp hentries
        obtain ⟨rfl, hok⟩ := (checkHeaders_iff hn).mp h
        obtain rfl := not_not.mp hmethod
        have hversions : version = lit "HTTP/1.0" ∨ version = lit "HTTP/1.1" := by
          rw [not_and_or, not_not, not_not] at hversion
          exact hversion.symm
        refine ⟨⟨version, fields, requestLine_iff.mp hline, hversions, hfields, hok⟩,
          not_not.mp hslash, ?_⟩
        rw [hvisible, not_not] at hbytes
        exact hbytes
  · rintro ⟨⟨version, fields, hwords, hversion, hfields, hok⟩, hslash, hbytes⟩
    have hn : (Table.keys (fields.map stored)).Nodup := by
      rw [Table.keys, List.map_map]
      exact hok.distinct
    have hnil : (Table.keys ([] : Table Bytes Bytes)).Nodup := List.nodup_nil
    have hloop : rows.foldlM addHeader [] = some (fields.map stored) :=
      (foldlM_addHeader hnil).mpr ⟨_, headers_iff.mpr ⟨fields, hfields, rfl⟩, rfl, hn⟩
    have hversion' : ¬ (version ≠ lit "HTTP/1.1" ∧ version ≠ lit "HTTP/1.0") := by
      rintro ⟨h11, h10⟩
      exact hversion.elim h10 h11
    have hvisible' : ¬ (target.any fun c => c ≤ 32 || 127 ≤ c) = true := by
      rw [hvisible, not_not]
      exact hbytes
    rw [parseLines, requestLine_iff.mpr hwords]
    simp only [hloop]
    rw [if_neg (not_not.mpr rfl), if_neg hversion', if_neg (not_not.mpr hslash), if_neg hvisible']
    exact (checkHeaders_iff hn).mpr ⟨rfl, hok⟩

/-- A text with an empty line, cut at the first one. -/
theorem exists_message {text : Bytes} (h : [cr, lf, cr, lf] <:+: text) :
    ∃ first rows tail, Line cr lf first ∧ Rows cr lf rows ∧
      text = headed cr lf first rows ([cr, lf] ++ tail) := by
  have hpair : ¬ Line cr lf text := fun hline => hline.not_blank h
  obtain ⟨first, rows, rest, hfirst, hrows, hrest, rfl⟩ := exists_headed cr_ne_lf hpair
  rcases hrest with ⟨tail, rfl⟩ | hrest
  · exact ⟨first, rows, tail, hfirst, hrows, rfl⟩
  · exact absurd h (find_eq_none_iff.mp (find_no_blank cr_ne_lf hfirst hrows hrest))

/-- Lines that end with the first empty line of the text are not empty. -/
theorem rows_of_ends {first : Bytes} {rows : List Bytes} {text : Bytes}
    (htext : text = headed cr lf first rows [cr, lf])
    (hlines : ∀ line ∈ first :: rows, Line cr lf line)
    (hends : ∀ before after, text = before ++ [cr, lf, cr, lf] ++ after → after = []) :
    Rows cr lf rows := by
  intro row hrow
  refine ⟨hlines row (List.mem_cons_of_mem first hrow), ?_⟩
  rintro rfl
  obtain ⟨before, after, rfl⟩ := List.append_of_mem hrow
  -- The end of the line before the empty one and its own end.
  have hfront : ∃ front, first ++ [cr, lf] ++ terminated cr lf before = front ++ [cr, lf] := by
    rcases List.eq_nil_or_concat before with rfl | ⟨init, last, rfl⟩
    · exact ⟨first, by simp [terminated]⟩
    · exact ⟨first ++ [cr, lf] ++ terminated cr lf init ++ last, by simp [terminated]⟩
  obtain ⟨front, hfront⟩ := hfront
  have hsplit : text = front ++ [cr, lf, cr, lf] ++ (terminated cr lf after ++ [cr, lf]) := by
    have hcut : headed cr lf first (before ++ [] :: after) [cr, lf] =
        first ++ [cr, lf] ++ terminated cr lf before ++
          ([cr, lf] ++ (terminated cr lf after ++ [cr, lf])) := by
      simp [headed, terminated]
    rw [htext, hcut, hfront]
    simp
  have := hends front _ hsplit
  simp at this

theorem accepted_iff {text target : Bytes} :
    parseHttpRequest text = ⟨200, target⟩ ↔ Accepted text target := by
  constructor
  · intro h
    have hblank : [cr, lf, cr, lf] <:+: text := by
      by_contra hno
      rw [parse_unended hno] at h
      exact bad_ne (by decide) h
    obtain ⟨first, rows, tail, hfirst, hrows, rfl⟩ := exists_message hblank
    rw [parse_headed hfirst hrows tail] at h
    split at h
    · exact absurd h (bad_ne (by decide))
    split at h
    · exact absurd h (bad_ne (by decide))
    rename_i htail hsize
    obtain rfl := not_not.mp htail
    obtain ⟨⟨version, fields, hwords, hversion, hfields, hok⟩, hslash, hvisible⟩ :=
      parseLines_iff.mp h
    rw [List.append_nil] at hsize
    have hfind := find_blank cr_ne_lf hfirst hrows [cr, lf]
    rw [if_pos (List.prefix_refl _)] at hfind
    refine ⟨by simpa using hsize, ⟨?_, ?_⟩,
      ⟨first, rows, version, fields, by rw [List.append_nil], ?_, hwords, hversion, hfields, hok⟩,
      hslash, hvisible⟩
    · rcases List.eq_nil_or_concat rows with rfl | ⟨init, last, rfl⟩
      · exact ⟨first, by simp [headed, terminated]⟩
      · exact ⟨first ++ [cr, lf] ++ terminated cr lf init ++ last, by simp [headed, terminated]⟩
    · intro before after heq
      have hlength := congrArg List.length heq
      obtain ⟨n, hn, hle⟩ : ∃ n, find [cr, lf, cr, lf] (before ++ [cr, lf, cr, lf] ++ after) =
          some n ∧ n ≤ before.length := find_le
      rw [← heq, List.append_nil, hfind] at hn
      obtain rfl := Option.some.inj hn
      rw [length_headed] at hlength
      simp only [List.length_append, List.length_cons, List.length_nil] at hlength
      exact List.length_eq_zero_iff.mp (by omega)
    · intro line hline
      rcases List.mem_cons.mp hline with rfl | hline
      · exact hfirst
      · exact (hrows line hline).1
  · rintro ⟨hsize, ⟨-, hends⟩, ⟨first, rows, version, fields, rfl, hlines, hrequest⟩, hslash, hvisible⟩
    have hrows := rows_of_ends rfl hlines hends
    have hempty : headed cr lf first rows [cr, lf] = headed cr lf first rows ([cr, lf] ++ []) := rfl
    have hparse := parse_headed (hlines first List.mem_cons_self) hrows []
    rw [hempty] at hsize ⊢
    rw [hparse, if_neg (not_not.mpr rfl), if_neg (by omega)]
    exact parseLines_iff.mpr ⟨⟨version, fields, hrequest⟩, hslash, hvisible⟩

/-! ## Order and case of the header lines -/

/-- A list of results without a failure, in another order. -/
theorem perm_map_some {α : Type} {l : List α} {l' : List (Option α)} (h : (l.map some).Perm l') :
    ∃ l'' : List α, l' = l''.map some ∧ l.Perm l'' := by
  have hall : ∀ o ∈ l', ∃ a, o = some a := by
    intro o ho
    obtain ⟨a, -, rfl⟩ := List.mem_map.mp (h.mem_iff.mpr ho)
    exact ⟨a, rfl⟩
  have hsome : ∀ l' : List (Option α), (∀ o ∈ l', ∃ a, o = some a) →
      ∃ l'' : List α, l' = l''.map some := by
    intro l' hall
    induction l' with
    | nil => exact ⟨[], rfl⟩
    | cons o l' ih =>
      obtain ⟨a, rfl⟩ := hall o List.mem_cons_self
      obtain ⟨l'', rfl⟩ := ih fun o ho => hall o (List.mem_cons_of_mem _ ho)
      exact ⟨a :: l'', rfl⟩
  obtain ⟨l'', rfl⟩ := hsome l' hall
  exact ⟨l'', rfl, (List.map_perm_map_iff (Option.some_injective α)).mp h⟩

theorem foldlM_perm {rows rows' : List Bytes} (h : (rows.map header).Perm (rows'.map header))
    {headers : Table Bytes Bytes} (hloop : rows.foldlM addHeader [] = some headers) :
    ∃ headers', rows'.foldlM addHeader [] = some headers' ∧ headers.keys.Nodup ∧
      headers.Perm headers' := by
  have hnil : (Table.keys ([] : Table Bytes Bytes)).Nodup := List.nodup_nil
  obtain ⟨fields, hfields, rfl, hn⟩ := (foldlM_addHeader hnil).mp hloop
  rw [hfields] at h
  obtain ⟨fields', hfields', hp⟩ := perm_map_some h
  have hn' : (Table.keys fields').Nodup := (hp.map Prod.fst).nodup_iff.mp hn
  exact ⟨fields', (foldlM_addHeader hnil).mpr ⟨fields', hfields', rfl, hn'⟩, hn, hp⟩

theorem checkHeaders_perm {headers headers' : Table Bytes Bytes} (hn : headers.keys.Nodup)
    (h : headers.Perm headers') (target version : Bytes) :
    checkHeaders target version headers' = checkHeaders target version headers := by
  have hget : ∀ key, headers'.get key = headers.get key := fun key => Table.get_perm hn h
  simp only [checkHeaders, hget]

theorem parseLines_perm {rows rows' : List Bytes} (h : (rows.map header).Perm (rows'.map header))
    (first : Bytes) : parseLines first rows' = parseLines first rows := by
  have hloop : ∀ target version,
      (match rows'.foldlM addHeader [] with
        | none => bad
        | some headers => checkHeaders target version headers) =
      match rows.foldlM addHeader [] with
        | none => bad
        | some headers => checkHeaders target version headers := by
    intro target version
    cases hrows : rows.foldlM addHeader [] with
    | some headers =>
      obtain ⟨headers', hrows', hn, hp⟩ := foldlM_perm h hrows
      rw [hrows']
      exact checkHeaders_perm hn hp target version
    | none =>
      cases hrows' : rows'.foldlM addHeader [] with
      | none => rfl
      | some headers =>
        obtain ⟨headers', hsome, -⟩ := foldlM_perm h.symm hrows'
        rw [hrows] at hsome
        cases hsome
  unfold parseLines
  simp only [hloop]

theorem map_header_eq {rows rows' : List Bytes} (h : List.Forall₂ SameField rows rows') :
    rows.map header = rows'.map header := by
  induction h with
  | nil => rfl
  | cons hfield _ ih => rw [List.map_cons, List.map_cons, hfield.header_eq, ih]

theorem Respelled.perm {rows rows' : List Bytes} (h : Respelled rows rows') :
    (rows.map header).Perm (rows'.map header) := by
  obtain ⟨rows'', hp, hcase⟩ := h
  rw [← map_header_eq hcase]
  exact hp.map header

theorem rows_case {rows rows' : List Bytes} (h : List.Forall₂ SameField rows rows')
    (hrows : Rows cr lf rows) : Rows cr lf rows' := by
  intro row' hrow'
  induction h with
  | nil => cases hrow'
  | cons hfield _ ih =>
    rcases List.mem_cons.mp hrow' with rfl | hrow'
    · exact hfield.line (hrows _ List.mem_cons_self)
    · exact ih (fun r hr => hrows r (List.mem_cons_of_mem _ hr)) hrow'

theorem length_case {rows rows' : List Bytes} (h : List.Forall₂ SameField rows rows') :
    (terminated cr lf rows').length = (terminated cr lf rows).length := by
  induction h with
  | nil => rfl
  | cons hfield _ ih =>
    simp only [terminated, List.flatMap_cons, List.length_append] at ih ⊢
    rw [hfield.length_eq, ih]

theorem Respelled.rows {rows rows' : List Bytes} (h : Respelled rows rows')
    (hrows : Rows cr lf rows) : Rows cr lf rows' := by
  obtain ⟨rows'', hp, hcase⟩ := h
  exact rows_case hcase fun row hrow => hrows row (hp.mem_iff.mpr hrow)

theorem Respelled.length_eq {rows rows' : List Bytes} (h : Respelled rows rows') :
    (terminated cr lf rows').length = (terminated cr lf rows).length := by
  obtain ⟨rows'', hp, hcase⟩ := h
  rw [length_case hcase]
  exact (hp.symm.flatMap_right _).length_eq

/-- A text keeps its result when its header lines are respelled, whatever the lines are. -/
theorem parse_respelled {first rest : Bytes} {rows rows' : List Bytes} (hfirst : Line cr lf first)
    (hrows : Rows cr lf rows) (hrest : [cr, lf] <+: rest ∨ Line cr lf rest)
    (h : Respelled rows rows') :
    parseHttpRequest (headed cr lf first rows' rest) =
      parseHttpRequest (headed cr lf first rows rest) := by
  rcases hrest with ⟨tail, rfl⟩ | hrest
  · rw [parse_headed hfirst hrows, parse_headed hfirst (h.rows hrows), parseLines_perm h.perm,
      length_headed, length_headed, h.length_eq]
  · have hnone := find_no_blank cr_ne_lf hfirst hrows hrest
    have hnone' := find_no_blank cr_ne_lf hfirst (h.rows hrows) hrest
    rw [parse_unended (find_eq_none_iff.mp hnone), parse_unended (find_eq_none_iff.mp hnone')]

/-- Status 200 is for the requests of the grammar, with their target; the order of the header lines
and the case of their names play no part, in any text with header lines (`exists_headed`). -/
theorem request_exact :
    (∀ text target, (parseHttpRequest text).status = 200 ∧ (parseHttpRequest text).target = target ↔
      Accepted text target) ∧
      ∀ first rows rows' rest, Line cr lf first → Rows cr lf rows →
        ([cr, lf] <+: rest ∨ Line cr lf rest) → Respelled rows rows' →
          parseHttpRequest (headed cr lf first rows' rest) =
            parseHttpRequest (headed cr lf first rows rest) := by
  constructor
  · intro text target
    rw [← accepted_iff]
    constructor
    · rintro ⟨hstatus, htarget⟩
      cases h : parseHttpRequest text with
      | mk status target' => rw [h] at hstatus htarget; rw [← hstatus, ← htarget]
    · intro h
      rw [h]
      exact ⟨rfl, rfl⟩
  · intro first rows rows' rest hfirst hrows hrest h
    exact parse_respelled hfirst hrows hrest h

/-- Two header lines, then the other way round and in another case. -/
theorem request_exact_swapped :
    parseHttpRequest (lit "GET / HTTP/1.1\r\nx-A: 1\r\nHOST: h\r\n\r\n") =
      parseHttpRequest (lit "GET / HTTP/1.1\r\nHost: h\r\nX-a: 1\r\n\r\n") ∧
    Accepted (lit "GET / HTTP/1.1\r\nHost: h\r\nX-a: 1\r\n\r\n") (lit "/") := by
  have hfirst : Line cr lf (lit "GET / HTTP/1.1") := by
    rw [Line, ← find_eq_none_iff]
    rfl
  have hhost : Line cr lf (lit "Host: h") ∧ lit "Host: h" ≠ [] := by
    rw [Line, ← find_eq_none_iff]
    exact ⟨rfl, by decide⟩
  have hx : Line cr lf (lit "X-a: 1") ∧ lit "X-a: 1" ≠ [] := by
    rw [Line, ← find_eq_none_iff]
    exact ⟨rfl, by decide⟩
  have hrows : Rows cr lf [lit "Host: h", lit "X-a: 1"] := by
    simp only [Rows, List.forall_mem_cons]
    exact ⟨hhost, hx, List.forall_mem_nil _⟩
  have hrespelled : Respelled [lit "Host: h", lit "X-a: 1"] [lit "x-A: 1", lit "HOST: h"] := by
    refine ⟨_, .swap _ _ _, .cons (Or.inr ?_) (.cons (Or.inr ?_) .nil)⟩
    · exact ⟨lit "X-a", lit "x-A", lit " 1", by decide, by decide, by decide, by decide⟩
    · exact ⟨lit "Host", lit "HOST", lit " h", by decide, by decide, by decide, by decide⟩
  have h := request_exact.2 (lit "GET / HTTP/1.1") _ _ [cr, lf] hfirst hrows
    (Or.inl (List.prefix_refl _)) hrespelled
  refine ⟨h, (request_exact.1 _ _).mp ?_⟩
  have hparse := parse_headed hfirst hrows []
  have hvalue : parseLines (lit "GET / HTTP/1.1") [lit "Host: h", lit "X-a: 1"] = ⟨200, lit "/"⟩ := rfl
  rw [hvalue] at hparse
  have htext : parseHttpRequest (lit "GET / HTTP/1.1\r\nHost: h\r\nX-a: 1\r\n\r\n") = ⟨200, lit "/"⟩ :=
    hparse
  rw [htext]
  exact ⟨rfl, rfl⟩

end WebHtop.Server.Http
