import WebHtop.Server.Collectors.MetricsCollector

/-!
# Reading files

`Read` of server/system/linux_source.cpp: one `read` after another until the end of the file, an
error or the limit. What the kernel returns is the input, and it may cut the file anywhere and
interrupt a call at any time.
-/

namespace WebHtop.Server.Collectors

open WebHtop.Common

/-- What `read` returns; no bytes are the end of the file. -/
inductive ReadResult where
  | received (bytes : Bytes)
  | interrupted
  | failed (error : Int32)

def kMaxFile : Nat := 8 * 1024 * 1024

def kEfbig : Int32 := 27

/-- The loop behind `open`; `none` while it still waits for a result. -/
def readLoop (text : Bytes) : List ReadResult → Option FileResult
  | [] => none
  | .received [] :: _ => some (.ok text)
  | .received (b :: bytes) :: results =>
    if text.length + (b :: bytes).length > kMaxFile then some (.error kEfbig)
    else readLoop (text ++ b :: bytes) results
  | .interrupted :: results => readLoop text results
  | .failed error :: _ => some (.error error)

def read : Except Int32 (List ReadResult) → Option FileResult
  | .error error => some (.error error)
  | .ok results => readLoop [] results

/-- A result behind which the loop goes on, with the bytes that it brings. -/
inductive ReadResult.Brings : ReadResult → Bytes → Prop
  | received {bytes : Bytes} (h : bytes ≠ []) : Brings (.received bytes) bytes
  | interrupted : Brings .interrupted []

/-- The results bring a text, piece by piece. -/
def Bring (results : List ReadResult) (pieces : List Bytes) : Prop :=
  List.Forall₂ ReadResult.Brings results pieces

/-- A file has been read within the limit. -/
def Bounded (file : FileResult) : Prop := ∀ text, file = .ok text → text.length ≤ kMaxFile

/-- What the loop has of the pieces when it looks at the next result. -/
theorem readLoop_append {results : List ReadResult} {pieces : List Bytes} (h : Bring results pieces)
    {text : Bytes} (htext : text.length ≤ kMaxFile) (rest : List ReadResult) :
    readLoop text (results ++ rest) =
      if (text ++ pieces.flatten).length ≤ kMaxFile then readLoop (text ++ pieces.flatten) rest
      else some (.error kEfbig) := by
  induction h generalizing text with
  | nil => simp [htext]
  | @cons result piece results pieces hresult hrest ih =>
    cases hresult with
    | interrupted => exact ih htext
    | received hne =>
      obtain ⟨b, bytes, rfl⟩ := List.exists_cons_of_ne_nil hne
      rw [List.cons_append, readLoop, List.flatten_cons, ← List.append_assoc]
      split
      · rename_i hlarge
        rw [if_neg]
        simp only [List.length_append] at hlarge ⊢
        omega
      · rename_i hfits
        refine ih ?_
        rw [List.length_append]
        omega

/-- However the kernel cuts the file and whatever it interrupts, Read gives the whole text at the end
of the file, the error of the first call that fails, `open` among them, or EFBIG if what has come
before goes over the limit. -/
theorem read_exact {results : List ReadResult} {pieces : List Bytes} (h : Bring results pieces)
    (rest : List ReadResult) (error : Int32) :
    read (.error error) = some (.error error) ∧
      read (.ok (results ++ .received [] :: rest)) =
        some (if pieces.flatten.length ≤ kMaxFile then .ok pieces.flatten else .error kEfbig) ∧
      read (.ok (results ++ .failed error :: rest)) =
        some (.error (if pieces.flatten.length ≤ kMaxFile then error else kEfbig)) ∧
      read (.ok results) =
        if pieces.flatten.length ≤ kMaxFile then none else some (.error kEfbig) := by
  have hempty : ([] : Bytes).length ≤ kMaxFile := Nat.zero_le _
  refine ⟨rfl, ?_, ?_, ?_⟩
  · rw [read, readLoop_append h hempty, List.nil_append]
    split <;> rfl
  · rw [read, readLoop_append h hempty, List.nil_append]
    split <;> rfl
  · have hloop := readLoop_append h hempty []
    rwa [List.append_nil, List.nil_append] at hloop

theorem read_exact_cut : read (.ok [.interrupted, .received [104, 116], .received [111], .received []]) =
    some (.ok [104, 116, 111]) := by
  have hbring : Bring [.interrupted, .received [104, 116], .received [111]] [[], [104, 116], [111]] :=
    .cons .interrupted (.cons (.received (by decide)) (.cons (.received (by decide)) .nil))
  rw [← List.append_nil [ReadResult.received []]]
  exact (read_exact hbring [] 5).2.1.trans (congrArg some (if_pos (by decide)))

/-- The results in front of one that ends the loop. -/
theorem exists_bring (results : List ReadResult) : ∃ front pieces rest, results = front ++ rest ∧
    Bring front pieces ∧ (rest = [] ∨ (∃ rest', rest = .received [] :: rest') ∨
      ∃ error rest', rest = .failed error :: rest') := by
  induction results with
  | nil => exact ⟨[], [], [], rfl, .nil, .inl rfl⟩
  | cons result results ih =>
    obtain ⟨front, pieces, rest, rfl, hfront, hrest⟩ := ih
    cases result with
    | interrupted => exact ⟨_ :: front, [] :: pieces, rest, rfl, .cons .interrupted hfront, hrest⟩
    | failed error => exact ⟨[], [], _, rfl, .nil, .inr (.inr ⟨error, _, rfl⟩)⟩
    | received bytes =>
      cases bytes with
      | nil => exact ⟨[], [], _, rfl, .nil, .inr (.inl ⟨_, rfl⟩)⟩
      | cons b bytes =>
        exact ⟨_ :: front, (b :: bytes) :: pieces, rest, rfl,
          .cons (.received (List.cons_ne_nil _ _)) hfront, hrest⟩

theorem read_bounded {opened : Except Int32 (List ReadResult)} {file : FileResult}
    (h : read opened = some file) : Bounded file := by
  rintro text rfl
  cases opened with
  | error error => cases h
  | ok results =>
    obtain ⟨front, pieces, rest, rfl, hfront, hrest⟩ := exists_bring results
    rw [read, readLoop_append hfront (Nat.zero_le _), List.nil_append] at h
    split at h
    · rename_i hfits
      rcases hrest with rfl | ⟨rest', rfl⟩ | ⟨error, rest', rfl⟩
      · cases h
      · obtain rfl := Except.ok.inj (Option.some.inj h)
        exact hfits
      · cases h
    · cases h

end WebHtop.Server.Collectors
