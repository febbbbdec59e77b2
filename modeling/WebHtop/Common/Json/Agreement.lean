import WebHtop.Common.Json.Bounds

/-!
# The parser with an index and the parser on the unread text

Both have the same result on every input, so that what is proved of either holds of the other. A
value has fuel for four calls a byte in the parser on the unread text, and the other one has levels
for the depth that is left.
-/

namespace WebHtop.Common

open WebHtop.Lib WebHtop.Lib.Decimal Reader

namespace Cursor

/-- The state of the parser on the unread text. -/
def unread (s : Cursor) : ParserState where
  rest := s.rest
  depth := s.depth
  nodes := s.nodes

variable {α : Type}

/-- The same value and what is left to read, or a failure of both. -/
inductive Agrees : Option α × ParserState → Outcome α × Cursor → Prop
  | value (a : α) (t : Cursor) : Agrees (some a, t.unread) (.value a, t)
  | failed (st : ParserState) (t : Cursor) : Agrees (none, st) (.failed, t)

theorem unread_skipWhitespace (s : Cursor) :
    s.skipWhitespace.unread = { s.unread with rest := Common.skipWhitespace s.rest } := by
  rw [← rest_skipWhitespace]
  rfl

theorem unread_advance {s : Cursor} {c : UInt8} {cs : Bytes} (h : s.rest = c :: cs) :
    (s.advance 1).unread = { s.unread with rest := cs } := by
  rw [← (rest_cons h).2.2]
  rfl

theorem peek_eq_iff {s : Cursor} {c : UInt8} (hc : c ≠ 0) :
    s.peek = c ↔ s.rest.head? = some c := by
  cases hrest : s.rest with
  | nil =>
    rw [(rest_nil hrest).2]
    simp [hc.symm]
  | cons d ds =>
    rw [(rest_cons hrest).2.1]
    simp

variable {D : Type}

/-- A token as a value. -/
theorem agrees_token {k : Nat} {s : Cursor} {o : Option (α × Bytes)} {r : Outcome α × Cursor}
    {r' : Outcome (JSONValue D) × Cursor} (h : Takes k s o r) (f : α → JSONValue D)
    (hvalue : ∀ a t, r = (.value a, t) → r' = (.value (f a), t))
    (hfailed : ∀ t, r = (.failed, t) → r' = (.failed, t)) :
    Agrees (token o f s.unread) r' := by
  cases h with
  | @value a n _ _ =>
    rw [hvalue _ _ rfl, ← rest_advance]
    exact .value (f a) (s.advance n)
  | failed _ =>
    rw [hfailed _ rfl]
    exact .failed _ _

theorem agrees_keyword (text : Bytes) (v : JSONValue D) (s : Cursor) :
    Agrees (Common.keyword text v s.unread) (keyword text v s) := by
  unfold Common.keyword keyword
  change Agrees (if s.rest.take text.length = text then _ else _)
    (if s.rest.take text.length = text then _ else _)
  split
  · have h : ({ s.unread with rest := s.unread.rest.drop text.length } : ParserState) =
        (s.advance text.length).unread := by
      rw [unread, unread, rest_advance]
      rfl
    rw [h]
    exact .value v _
  · exact .failed _ _

/-! ## The loops -/

theorem rest_length_le {s t : Cursor} (h : Advances s t) : t.rest.length ≤ s.rest.length := by
  have hpos := h.pos
  rw [rest_length, rest_length, h.input]
  omega

/-- What follows an element or a member. -/
theorem agrees_behind (close : UInt8) (hclose : close ≠ 0) {t : Cursor} {result : JSONValue D}
    {more : ParserState → Option (JSONValue D) × ParserState} {more' : Reader Cursor (JSONValue D)}
    (hmore : ∀ u, Advances t u → u.rest.length < t.rest.length → Agrees (more u.unread) (more' u)) :
    Agrees
      (match Common.skipWhitespace t.rest with
      | [] => (none, { t.unread with rest := Common.skipWhitespace t.rest })
      | c :: cs =>
        if c = close then (some result, { t.unread with rest := cs })
        else if c = ch ',' then
          if (Common.skipWhitespace cs).head? = some close then
            (none, { t.unread with rest := Common.skipWhitespace cs })
          else more { t.unread with rest := Common.skipWhitespace cs }
        else (none, { t.unread with rest := Common.skipWhitespace t.rest }))
      ((do
        modify skipWhitespace
        let s ← here
        if s.peek = close then do
          modify (advance 1)
          pure result
        else if s.peek = ch ',' then do
          modify (advance 1)
          modify skipWhitespace
          let s ← here
          if s.peek = close then fail else more'
        else fail : Reader Cursor (JSONValue D)) t) := by
  rw [modify_bind, here_bind, ← rest_skipWhitespace]
  have hadvances := whitespace_advances t
  have hunread := unread_skipWhitespace t
  generalize t.skipWhitespace = u at hadvances hunread
  cases hrest : u.rest with
  | nil =>
    have hpeek := (rest_nil hrest).2
    rw [hpeek, if_neg hclose.symm, if_neg (show ¬ (0 : UInt8) = ch ',' by decide)]
    exact .failed _ _
  | cons c cs =>
    have hafter : (u.advance 1).unread = { t.unread with rest := cs } := by
      rw [unread_advance hrest, hunread]
    rw [(rest_cons hrest).2.1]
    dsimp only
    split
    · rw [← hafter]
      exact .value _ _
    split
    · rename_i hcomma
      have hstep := advance_one_advances ((rest_cons hrest).2.1.trans hcomma) (by decide)
      have hspace := whitespace_advances (u.advance 1)
      have hshort : (u.advance 1).rest.length < u.rest.length := by
        rw [(rest_cons hrest).2.2, hrest]
        exact Nat.lt_succ_self _
      have hnext := unread_skipWhitespace (u.advance 1)
      have hhead := peek_eq_iff (s := (u.advance 1).skipWhitespace) hclose
      rw [rest_skipWhitespace, (rest_cons hrest).2.2] at hhead
      rw [hafter, (rest_cons hrest).2.2] at hnext
      rw [modify_bind, modify_bind, here_bind]
      generalize (u.advance 1).skipWhitespace = x at hspace hnext hhead
      split
      · rename_i hend
        rw [if_pos (hhead.mpr hend)]
        exact .failed _ _
      · rename_i hend
        rw [if_neg (fun h => hend (hhead.mp h)), ← hnext]
        apply hmore x (hadvances.trans (hstep.trans hspace))
        have hle := rest_length_le hspace
        have hle' := rest_length_le hadvances
        omega
    · exact .failed _ _

/-- How an array or an object begins. -/
theorem agrees_opening (opening close : UInt8) (hclose : close ≠ 0) {s : Cursor}
    {empty : JSONValue D} {more : ParserState → Option (JSONValue D) × ParserState}
    {more' : Cursor → Reader Cursor (JSONValue D)}
    (hmore : ∀ t, Advances s t → t.rest.length < s.rest.length →
      Agrees (more t.unread) (more' t t)) :
    Agrees
      (match s.rest with
      | [] => (none, s.unread)
      | c :: cs =>
        if c = opening then
          if (Common.skipWhitespace cs).head? = some close then
            (some empty, { s.unread with rest := (Common.skipWhitespace cs).tail })
          else more { s.unread with rest := Common.skipWhitespace cs }
        else (none, s.unread))
      ((do
        expect opening
        modify skipWhitespace
        let s ← here
        if s.peek = close then do
          modify (advance 1)
          pure empty
        else more' s : Reader Cursor (JSONValue D)) s) := by
  cases hrest : s.rest with
  | nil =>
    rw [bind_of_failed (expect_failed fun r hr => by rw [hrest] at hr; cases hr)]
    exact .failed _ _
  | cons c cs =>
    dsimp only
    by_cases hc : c = opening
    swap
    · rw [if_neg hc, bind_of_failed (expect_failed_of hrest hc)]
      exact .failed _ _
    subst hc
    have hstep : Advances s (s.advance 1) := advance_advances (by rw [hrest]; simp)
    have hspace := whitespace_advances (s.advance 1)
    have hunread := unread_skipWhitespace (s.advance 1)
    have hhead := peek_eq_iff (s := (s.advance 1).skipWhitespace) hclose
    rw [rest_skipWhitespace, (rest_cons hrest).2.2] at hhead
    rw [unread_advance hrest, (rest_cons hrest).2.2] at hunread
    rw [if_pos rfl, bind_of_value (expect_value hrest), modify_bind, here_bind]
    generalize (s.advance 1).skipWhitespace = t at hspace hhead hunread
    have ht : t.rest = Common.skipWhitespace cs := congrArg ParserState.rest hunread
    split
    · rename_i hend
      rw [if_pos (hhead.mpr hend)]
      obtain ⟨tail, htail⟩ := List.head?_eq_some_iff.mp hend
      have hafter := unread_advance (ht.trans htail)
      rw [hunread] at hafter
      rw [htail, List.tail_cons, ← hafter]
      exact .value _ _
    · rename_i hend
      rw [if_neg (fun h => hend (hhead.mp h)), ← hunread]
      apply hmore t (hstep.trans hspace)
      have hle := rest_length_le hspace
      rw [(rest_cons hrest).2.2] at hle
      rw [hrest, List.length_cons]
      omega

variable [Double D] {value : Reader Cursor (JSONValue D)} {levels : Nat}

/-- What is known of the calls of ParseValue in a loop. -/
structure Calls (levels : Nat) (value : Reader Cursor (JSONValue D)) : Prop where
  bounded : ∀ t : Cursor, 64 ≤ t.depth + levels → Bounded value t
  agrees : ∀ (t : Cursor) (fuel : Nat), 64 ≤ t.depth + levels → 4 * t.rest.length ≤ fuel →
    Agrees (Common.parseValue fuel t.unread) (value t)

theorem agrees_parseItems (hvalue : Calls levels value) {turns fuel : Nat}
    {arr : List (JSONValue D)} {s : Cursor} (hd : 64 ≤ s.depth + levels)
    (ht : s.rest.length < turns) (hf : 4 * s.rest.length < fuel) :
    Agrees (Common.parseItems fuel arr s.unread) (parseItems value turns arr s) := by
  induction turns generalizing arr s fuel with
  | zero => omega
  | succ turns ih =>
    obtain ⟨fuel, rfl⟩ := Nat.exists_eq_add_one_of_ne_zero (by omega : fuel ≠ 0)
    have hadvances := (hvalue.bounded s hd).leads.1
    have hagrees := hvalue.agrees s fuel hd (by omega)
    generalize hr : value s = r at hagrees hadvances
    generalize hst : Common.parseValue (D := D) fuel s.unread = q at hagrees
    cases hagrees with
    | failed st t =>
      simp only [Common.parseItems, hst, parseItems]
      rw [bind_of_failed hr]
      exact .failed _ _
    | value v t =>
      simp only [Common.parseItems, hst, parseItems]
      rw [bind_of_value hr]
      refine agrees_behind (ch ']') (by decide) fun u htu hlt => ?_
      have hsu : Advances s u := hadvances.trans htu
      have hle : t.rest.length ≤ s.rest.length := rest_length_le hadvances
      exact ih (hsu.depth ▸ hd) (by omega) (by omega)

theorem agrees_parseArray (hvalue : Calls levels value) {fuel : Nat} {s : Cursor}
    (hd : 64 ≤ s.depth + levels) (hf : 4 * s.rest.length ≤ fuel + 3) :
    Agrees (Common.parseArray (fuel + 1) s.unread) (parseArray value s) := by
  simp only [Common.parseArray, parseArray]
  refine agrees_opening (ch '[') (ch ']') (by decide) fun t hst hlt => ?_
  apply agrees_parseItems hvalue (hst.depth ▸ hd)
  · rw [rest_length]
    exact Nat.lt_succ_self _
  · omega

/-- A member from its colon on. -/
theorem agrees_colon (hvalue : Calls levels value) {fuel : Nat} {t : Cursor} {st : ParserState}
    {more : JSONValue D → ParserState → Option (JSONValue D) × ParserState}
    {more' : JSONValue D → Reader Cursor (JSONValue D)} (hd : 64 ≤ t.depth + levels)
    (hst : ∀ r, ({ st with rest := r } : ParserState) = { t.unread with rest := r })
    (hf : 4 * t.rest.length ≤ fuel)
    (hmore : ∀ v u, Advances t u → Agrees (more v u.unread) (more' v u)) :
    Agrees
      (match Common.skipWhitespace t.rest with
      | [] => (none, st)
      | c :: cs =>
        if c = ch ':' then
          match Common.parseValue fuel { st with rest := Common.skipWhitespace cs } with
          | (none, st) => (none, st)
          | (some v, st) => more v st
        else (none, st))
      ((do
        modify skipWhitespace
        expect (ch ':')
        modify skipWhitespace
        let v ← value
        more' v : Reader Cursor (JSONValue D)) t) := by
  rw [modify_bind, ← rest_skipWhitespace]
  have htu := whitespace_advances t
  have hunread := unread_skipWhitespace t
  generalize t.skipWhitespace = u at htu hunread
  cases hu : u.rest with
  | nil =>
    rw [bind_of_failed (expect_failed fun r hr => by rw [hu] at hr; cases hr)]
    exact .failed _ _
  | cons c cs =>
    dsimp only
    by_cases hc : c = ch ':'
    swap
    · rw [if_neg hc, bind_of_failed (expect_failed_of hu hc)]
      exact .failed _ _
    subst hc
    have hstep : Advances u (u.advance 1) := advance_advances (by rw [hu]; simp)
    have hspace := whitespace_advances (u.advance 1)
    have hbehind := unread_skipWhitespace (u.advance 1)
    rw [unread_advance hu, hunread, (rest_cons hu).2.2] at hbehind
    rw [if_pos rfl, bind_of_value (expect_value hu), modify_bind]
    generalize (u.advance 1).skipWhitespace = x at hspace hbehind
    have hx : x.unread = { st with rest := Common.skipWhitespace cs } :=
      hbehind.trans (hst _).symm
    have htx : Advances t x := (htu.trans hstep).trans hspace
    have hdx : 64 ≤ x.depth + levels := htx.depth ▸ hd
    have hle := rest_length_le htx
    have hadvances := (hvalue.bounded x hdx).leads.1
    have hagrees := hvalue.agrees x fuel hdx (by omega)
    rw [hx] at hagrees
    generalize hr : value x = r at hagrees hadvances
    generalize Common.parseValue (D := D) fuel _ = q at hagrees
    cases hagrees with
    | failed st y =>
      rw [bind_of_failed hr]
      exact .failed _ _
    | value v y =>
      rw [bind_of_value hr]
      exact hmore v y (htx.trans hadvances)

omit [Double D] in
theorem refused_iff (obj : List (Bytes × JSONValue D)) (key : Bytes) :
    refused obj key = true ↔ obj.length ≥ 4096 ∨ key ∈ obj.map Prod.fst := by
  simp [refused]

theorem agrees_parseMembers (hvalue : Calls levels value) {turns fuel : Nat}
    {obj : List (Bytes × JSONValue D)} {s : Cursor} (hd : 64 ≤ s.depth + levels)
    (ht : s.rest.length < turns) (hf : 4 * s.rest.length < fuel) :
    Agrees (Common.parseMembers fuel obj s.unread) (parseMembers value turns obj s) := by
  induction turns generalizing obj s fuel with
  | zero => omega
  | succ turns ih =>
    obtain ⟨fuel, rfl⟩ := Nat.exists_eq_add_one_of_ne_zero (by omega : fuel ≠ 0)
    have hrest := rest_skipWhitespace s
    have hspace := whitespace_advances s
    have hkey := parseString_takes s.skipWhitespace
    simp only [Common.parseMembers, parseMembers]
    rw [modify_bind, show Common.skipWhitespace s.unread.rest = s.skipWhitespace.rest from hrest.symm]
    generalize hstring : Common.parseString s.skipWhitespace.rest = o at hkey
    generalize hr : parseString s.skipWhitespace = q at hkey
    cases hkey with
    | failed _ =>
      rw [bind_of_failed hr]
      exact .failed _ _
    | @value key n hn hle =>
      have hadvances : Advances s (s.skipWhitespace.advance n) :=
        hspace.trans (advance_advances hle)
      have hshort : (s.skipWhitespace.advance n).rest.length < s.rest.length := by
        have hle' := rest_length_le hspace
        rw [rest_advance, List.length_drop]
        omega
      have hst (r : Bytes) : ({ s.unread with rest := r } : ParserState) =
          { (s.skipWhitespace.advance n).unread with rest := r } := rfl
      rw [bind_of_value hr, ← rest_advance]
      simp only [refused_iff]
      split
      · exact .failed _ _
      generalize s.skipWhitespace.advance n = t at hadvances hshort hst
      refine agrees_colon hvalue (hadvances.depth ▸ hd) hst (by omega) fun v u htu => ?_
      refine agrees_behind (ch '}') (by decide) fun x hux hlt => ?_
      have hle' := rest_length_le htu
      have hsx := hadvances.trans (htu.trans hux)
      exact ih (hsx.depth ▸ hd) (by omega) (by omega)

theorem agrees_parseObject (hvalue : Calls levels value) {fuel : Nat} {s : Cursor}
    (hd : 64 ≤ s.depth + levels) (hf : 4 * s.rest.length ≤ fuel + 3) :
    Agrees (Common.parseObject (fuel + 1) s.unread) (parseObject value s) := by
  simp only [Common.parseObject, parseObject]
  refine agrees_opening (ch '{') (ch '}') (by decide) fun t hst hlt => ?_
  apply agrees_parseMembers hvalue (hst.depth ▸ hd)
  · rw [rest_length]
    exact Nat.lt_succ_self _
  · omega

/-! ## The recursion -/

theorem parseSwitch_nil {s : Cursor} (h : s.rest = []) : parseSwitch value s = (.failed, s) := by
  have hpeek := (rest_nil h).2
  rw [parseSwitch, here_bind, hpeek]
  rfl

theorem agrees_parseSwitch (hvalue : Calls levels value) {fuel : Nat} {s : Cursor}
    (hd : 64 ≤ s.depth + levels) (hf : 4 * s.rest.length ≤ fuel + 3) :
    Agrees (Common.parseSwitch (fuel + 2) s.unread) (parseSwitch value s) := by
  cases hrest : s.rest with
  | nil =>
    rw [parseSwitch_nil hrest]
    simp only [Common.parseSwitch, unread, hrest]
    exact .failed _ _
  | cons c cs =>
    have hunread : s.unread.rest = c :: cs := hrest
    rw [parseSwitch, here_bind]
    simp only [Common.parseSwitch, hunread, (rest_cons hrest).2.1]
    split
    · exact agrees_keyword _ _ s
    split
    · exact agrees_keyword _ _ s
    split
    · exact agrees_keyword _ _ s
    split
    · rw [← hrest]
      exact agrees_token (parseString_takes s) _ (fun _ _ h => bind_of_value h) fun _ h =>
        bind_of_failed h
    split
    · exact agrees_parseArray hvalue hd hf
    split
    · exact agrees_parseObject hvalue hd hf
    split
    · rw [← hrest]
      exact agrees_token (parseNumber_takes s) id (fun _ _ h => h) fun _ h => h
    · exact .failed _ _

/-- The checks of ParseValue and its guard. -/
theorem agrees_guarded {fuel : Nat} {s : Cursor} {body : Reader Cursor (JSONValue D)}
    (hbody : s.depth < 64 →
      Agrees (Common.parseSwitch fuel s.enter.skipWhitespace.unread) (body s.enter)) :
    Agrees (Common.parseValue (fuel + 1) s.unread) (guarded body s) := by
  by_cases hdepth : s.depth ≥ 64
  · have hcommon : Common.parseValue (D := D) (fuel + 1) s.unread = (none, s.unread) := by
      simp only [Common.parseValue]
      exact if_pos hdepth
    rw [hcommon, guarded_deep hdepth]
    exact .failed _ _
  by_cases hnodes : s.nodes + 1 > 1000000
  · have hcommon : Common.parseValue (D := D) (fuel + 1) s.unread =
        (none, { s.unread with nodes := s.nodes + 1 }) := by
      simp only [Common.parseValue]
      exact (if_neg hdepth).trans (if_pos hnodes)
    rw [hcommon, guarded_many hdepth hnodes]
    exact .failed _ _
  have hagrees := hbody (by omega)
  rw [unread_skipWhitespace] at hagrees
  have hcommon : Common.parseValue (D := D) (fuel + 1) s.unread =
      (fun r : Option (JSONValue D) × ParserState => (r.1, { r.2 with depth := r.2.depth - 1 }))
        (Common.parseSwitch fuel
          { s.enter.unread with rest := Common.skipWhitespace s.enter.rest }) := by
    simp only [Common.parseValue]
    exact (if_neg hdepth).trans (if_neg hnodes)
  rw [hcommon, guarded_enter hdepth hnodes]
  generalize Common.parseSwitch (D := D) fuel _ = q at hagrees
  generalize body s.enter = r at hagrees
  cases hagrees with
  | value v t => exact .value v t.leave
  | failed st t => exact .failed _ _

/-- Behind the end of the input there is no value. -/
theorem parseValue_nil {levels : Nat} {s : Cursor} (hd : 64 ≤ s.depth + levels)
    (hrest : s.rest = []) : ∃ t, parseValue (D := D) levels s = (.failed, t) := by
  have hbounded := bounded_parseValue (D := D) levels s hd
  have hsettled := hbounded.leads.2
  rcases h : parseValue (D := D) levels s with ⟨o, t⟩
  rw [h] at hsettled
  cases o with
  | failed => exact ⟨t, rfl⟩
  | value v =>
    have hinput : t.input = s.input := by
      have hstep := hbounded.leads.1
      rw [h] at hstep
      exact hstep.input
    have hgains := hbounded.gains v t h
    have hlength := congrArg List.length hrest
    rw [rest_length, List.length_nil] at hlength
    rw [hinput] at hgains
    omega
  | outside => cases hsettled
  | running => cases hsettled

theorem unread_nil (fuel : Nat) {s : Cursor} (hrest : s.rest = []) :
    (Common.parseValue (D := D) fuel s.unread).1 = none := by
  have hswitch (fuel : Nat) (st : ParserState) (h : st.rest = []) :
      (Common.parseSwitch (D := D) fuel st).1 = none := by
    cases fuel with
    | zero => rfl
    | succ fuel => simp only [Common.parseSwitch, h]
  cases fuel with
  | zero => rfl
  | succ fuel =>
    simp only [Common.parseValue]
    split
    · rfl
    split
    · rfl
    · apply hswitch
      rw [show s.unread.rest = [] from hrest]
      rfl

theorem agrees_nil {levels : Nat} {s : Cursor} (fuel : Nat) (hd : 64 ≤ s.depth + levels)
    (hrest : s.rest = []) :
    Agrees (Common.parseValue (D := D) fuel s.unread) (parseValue levels s) := by
  obtain ⟨t, ht⟩ := parseValue_nil (D := D) hd hrest
  have hnone := unread_nil (D := D) fuel hrest
  rw [ht, ← Prod.mk.eta (p := Common.parseValue (D := D) fuel s.unread), hnone]
  exact .failed _ _

theorem agrees_parseValue (levels : Nat) :
    ∀ (s : Cursor) (fuel : Nat), 64 ≤ s.depth + levels → 4 * s.rest.length ≤ fuel →
      Agrees (Common.parseValue (D := D) fuel s.unread) (parseValue levels s) := by
  induction levels with
  | zero =>
    intro s fuel hd hf
    by_cases hrest : s.rest = []
    · exact agrees_nil fuel hd hrest
    have hlength := List.length_pos_iff.mpr hrest
    obtain ⟨fuel, rfl⟩ := Nat.exists_eq_add_of_le' (show 1 ≤ fuel by omega)
    exact agrees_guarded fun hlt => by omega
  | succ levels ih =>
    intro s fuel hd hf
    by_cases hrest : s.rest = []
    · exact agrees_nil fuel hd hrest
    have hlength := List.length_pos_iff.mpr hrest
    obtain ⟨fuel, rfl⟩ := Nat.exists_eq_add_of_le' (show 3 ≤ fuel by omega)
    refine agrees_guarded fun hlt => ?_
    have hadvances := whitespace_advances s.enter
    have hdepth : s.enter.skipWhitespace.depth = s.depth + 1 := hadvances.depth
    have hle : s.enter.skipWhitespace.rest.length ≤ s.rest.length :=
      rest_length_le (s := s.enter) hadvances
    have hcalls : Calls levels (parseValue (D := D) levels) := ⟨bounded_parseValue levels, ih⟩
    exact agrees_parseSwitch hcalls (by omega) (by omega)

/-- Parse has the same result with an index and on the unread text. -/
theorem parse_agrees (input : Bytes) :
    (parse (D := D) input).1 =
      match Common.parse input with
      | some v => .value v
      | none => .failed := by
  unfold parse Common.parse
  split
  · rfl
  have hagrees := agrees_parseValue (D := D) 64 { input } (4 * input.length) (Nat.le_add_left _ _)
    (Nat.le_refl _)
  change Agrees (Common.parseValue (4 * input.length) { rest := input }) _ at hagrees
  generalize hq : Common.parseValue (D := D) (4 * input.length) { rest := input } = q at hagrees
  generalize hr : parseValue (D := D) 64 { input } = r at hagrees
  cases hagrees with
  | failed st t =>
    rw [bind_of_failed hr]
  | value v t =>
    have hend : t.skipWhitespace.atEnd = true ↔ Common.skipWhitespace t.rest = [] := by
      rw [← rest_skipWhitespace, atEnd, decide_eq_true_iff]
      exact List.drop_eq_nil_iff.symm
    rw [bind_of_value hr, modify_bind, here_bind]
    by_cases hdone : Common.skipWhitespace t.rest = []
    · rw [if_pos (hend.mpr hdone)]
      simp only [show t.unread.rest = t.rest from rfl, if_pos hdone]
      rfl
    · rw [if_neg (fun h => hdone (hend.mp h))]
      simp only [show t.unread.rest = t.rest from rfl, if_neg hdone]
      rfl

end Cursor

end WebHtop.Common
