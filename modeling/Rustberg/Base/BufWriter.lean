import Mathlib.Data.List.Basic

/-!
# A buffered writer over a file that can fail

The file answers each write with how much of it it took, or an error. The
writer holds back what is less than its capacity. `stream` is what the
file has taken followed by what is held back: `flushBuf_cases` says that
flushing never changes it, and `writeAll_cases` what a write can leave
there, a refused one in particular.
-/

namespace Buffered

/-- What the file answers to one write. -/
inductive WriteAnswer where
  | wrote (n : Nat)
  | interrupted
  | failed (code : Int)

inductive IoError where
  | writeZero
  | os (code : Int)
  deriving DecidableEq

/-- A file opened for appending: what it holds, and what it will answer. Past
these answers it takes all it is given. -/
structure File where
  content : List UInt8
  answers : List WriteAnswer

/-- What a loop of writes comes to: its result, what the file did not take, the file. -/
structure Drained where
  result : Except IoError Unit
  rest : List UInt8
  file : File

/-- Writing until all is taken or a write fails; an interrupted one is made again. -/
def drain : List WriteAnswer → List UInt8 → List UInt8 → Drained
  | answers, content, [] => ⟨.ok (), [], ⟨content, answers⟩⟩
  | [], content, bytes => ⟨.ok (), [], ⟨content ++ bytes, []⟩⟩
  | .wrote n :: answers, content, bytes =>
      if n = 0 then ⟨.error .writeZero, bytes, ⟨content, answers⟩⟩
      else drain answers (content ++ bytes.take n) (bytes.drop n)
  | .interrupted :: answers, content, bytes => drain answers content bytes
  | .failed code :: answers, content, bytes => ⟨.error (.os code), bytes, ⟨content, answers⟩⟩

def File.writeAll (file : File) (bytes : List UInt8) : Drained :=
  drain file.answers file.content bytes

structure BufWriter where
  file : File
  buf : List UInt8

namespace BufWriter

def flushBuf (w : BufWriter) : Except IoError Unit × BufWriter :=
  let drained := w.file.writeAll w.buf
  (drained.result, ⟨drained.file, drained.rest⟩)

/-- The buffer is flushed where the bytes do not fit; bytes that fill it go
straight to the file. -/
def writeAllCold (capacity : Nat) (w : BufWriter) (bytes : List UInt8) :
    Except IoError Unit × BufWriter :=
  match if capacity - w.buf.length < bytes.length then w.flushBuf else (.ok (), w) with
  | (.error e, w) => (.error e, w)
  | (.ok (), w) =>
      if capacity ≤ bytes.length then
        let drained := w.file.writeAll bytes
        (drained.result, { w with file := drained.file })
      else (.ok (), { w with buf := w.buf ++ bytes })

def writeAll (capacity : Nat) (w : BufWriter) (bytes : List UInt8) :
    Except IoError Unit × BufWriter :=
  if bytes.length < capacity - w.buf.length then (.ok (), { w with buf := w.buf ++ bytes })
  else w.writeAllCold capacity bytes

/-- Flushing a file does nothing more. -/
def flush (w : BufWriter) : Except IoError Unit × BufWriter := w.flushBuf

/-- What the file has taken, and what is held back. -/
def stream (w : BufWriter) : List UInt8 := w.file.content ++ w.buf

end BufWriter

/-! ## What is taken -/

@[simp] theorem drain_nil (answers : List WriteAnswer) (content : List UInt8) :
    drain answers content [] = ⟨.ok (), [], ⟨content, answers⟩⟩ := by
  cases answers with
  | nil => rfl
  | cons answer answers => cases answer <;> rfl

/-- The file takes a beginning of the bytes, and all of them where that succeeds. -/
theorem drain_cases (answers : List WriteAnswer) (content bytes : List UInt8) :
    ∃ taken rest file, file.content = content ++ taken ∧ bytes = taken ++ rest ∧
      ((rest = [] ∧ drain answers content bytes = ⟨.ok (), [], file⟩)
        ∨ ∃ e, rest ≠ [] ∧ drain answers content bytes = ⟨.error e, rest, file⟩) := by
  induction answers generalizing content bytes with
  | nil =>
      cases bytes with
      | nil => exact ⟨[], [], ⟨content, []⟩, by simp, rfl, .inl ⟨rfl, rfl⟩⟩
      | cons b bytes =>
          exact ⟨b :: bytes, [], ⟨content ++ b :: bytes, []⟩, rfl, by simp, .inl ⟨rfl, rfl⟩⟩
  | cons answer answers ih =>
      by_cases hnil : bytes = []
      · subst hnil
        exact ⟨[], [], ⟨content, answer :: answers⟩, by simp, rfl, .inl ⟨rfl, drain_nil _ _⟩⟩
      · cases answer with
        | wrote n =>
            rw [drain]
            split
            next => exact ⟨[], bytes, ⟨content, answers⟩, by simp, rfl, .inr ⟨_, hnil, rfl⟩⟩
            next =>
              obtain ⟨taken, rest, file, hcontent, hbytes, hresult⟩ :=
                ih (content ++ bytes.take n) (bytes.drop n)
              refine ⟨bytes.take n ++ taken, rest, file, by rw [hcontent, List.append_assoc], ?_,
                hresult⟩
              rw [List.append_assoc, ← hbytes, List.take_append_drop]
            next => exact hnil
        | interrupted =>
            rw [drain]
            · exact ih content bytes
            · exact hnil
        | failed code =>
            rw [drain]
            · exact ⟨[], bytes, ⟨content, answers⟩, by simp, rfl, .inr ⟨_, hnil, rfl⟩⟩
            · exact hnil

namespace BufWriter

/-- A flush moves held back bytes to the file, all of them where it succeeds. -/
theorem flushBuf_cases (w : BufWriter) :
    ∃ w', w'.stream = w.stream ∧ w.file.content <+: w'.file.content ∧
      ((w.flushBuf = (.ok (), w') ∧ w'.buf = []) ∨ ∃ e, w.flushBuf = (.error e, w')) := by
  obtain ⟨taken, rest, file, hcontent, hbytes, hresult⟩ :=
    drain_cases w.file.answers w.file.content w.buf
  refine ⟨⟨file, rest⟩, ?_, ⟨taken, hcontent.symm⟩, ?_⟩
  · rw [stream, stream, hcontent, hbytes, List.append_assoc]
  · rcases hresult with ⟨rfl, hok⟩ | ⟨e, -, herror⟩
    · exact .inl ⟨by simp only [flushBuf, File.writeAll, hok], rfl⟩
    · exact .inr ⟨e, by simp only [flushBuf, File.writeAll, herror]⟩

/-- Making room: the buffer is empty after it, or the bytes fit. -/
theorem room_cases (capacity : Nat) (w : BufWriter) (bytes : List UInt8) :
    ∃ w', w'.stream = w.stream ∧ w.file.content <+: w'.file.content ∧
      (((if capacity - w.buf.length < bytes.length then w.flushBuf else (.ok (), w))
            = (.ok (), w') ∧ (w'.buf = [] ∨ bytes.length ≤ capacity - w'.buf.length))
        ∨ ∃ e, (if capacity - w.buf.length < bytes.length then w.flushBuf else (.ok (), w))
            = (.error e, w')) := by
  split
  next =>
    obtain ⟨w', hstream, hcontent, hresult⟩ := w.flushBuf_cases
    refine ⟨w', hstream, hcontent, ?_⟩
    rcases hresult with ⟨hok, hempty⟩ | herror
    · exact .inl ⟨hok, .inl hempty⟩
    · exact .inr herror
  next hfits => exact ⟨w, rfl, List.prefix_rfl, .inl ⟨rfl, .inr (Nat.le_of_not_lt hfits)⟩⟩

/-- A write that is refused leaves a beginning of its bytes, never all of them. -/
theorem writeAllCold_cases {capacity : Nat} (hcapacity : 0 < capacity) (w : BufWriter)
    (bytes : List UInt8) :
    ∃ w', w.file.content <+: w'.file.content ∧
      ((w.writeAllCold capacity bytes = (.ok (), w') ∧ w'.stream = w.stream ++ bytes)
        ∨ ∃ e taken, w.writeAllCold capacity bytes = (.error e, w') ∧
            w'.stream = w.stream ++ taken ∧ taken <+: bytes ∧ taken ≠ bytes) := by
  obtain ⟨w₁, hstream, hcontent, ⟨hok, hroom⟩ | ⟨e, herror⟩⟩ := room_cases capacity w bytes
  · simp only [writeAllCold, hok]
    split
    next hdirect =>
      -- the buffer is empty, so what goes to the file comes next
      have hempty : w₁.buf = [] := by
        rcases hroom with hempty | hfits
        · exact hempty
        · exact List.eq_nil_of_length_eq_zero (by omega)
      obtain ⟨taken, rest, file, htaken, hbytes, hresult⟩ :=
        drain_cases w₁.file.answers w₁.file.content bytes
      have hgrown : (⟨file, w₁.buf⟩ : BufWriter).stream = w.stream ++ taken := by
        rw [← hstream, stream, stream, htaken, hempty, List.append_nil, List.append_nil]
      refine ⟨⟨file, w₁.buf⟩, hcontent.trans ⟨taken, htaken.symm⟩, ?_⟩
      rcases hresult with ⟨rfl, hok⟩ | ⟨e, hrest, herror⟩
      · left
        rw [List.append_nil] at hbytes
        exact ⟨by simp only [File.writeAll, hok], by rw [hgrown, hbytes]⟩
      · right
        refine ⟨e, taken, by simp only [File.writeAll, herror], hgrown, ⟨rest, hbytes.symm⟩, ?_⟩
        rintro rfl
        exact hrest (List.append_right_eq_self.mp hbytes.symm)
    next =>
      refine ⟨{ w₁ with buf := w₁.buf ++ bytes }, hcontent, .inl ⟨rfl, ?_⟩⟩
      rw [← hstream, stream, stream, List.append_assoc]
  · refine ⟨w₁, hcontent, ?_⟩
    simp only [writeAllCold, herror]
    by_cases hnil : bytes = []
    · simp [hnil] at herror
    · exact .inr ⟨e, [], rfl, by rw [hstream, List.append_nil], List.nil_prefix, Ne.symm hnil⟩

theorem writeAll_fits {capacity : Nat} {w : BufWriter} {bytes : List UInt8}
    (h : bytes.length < capacity - w.buf.length) :
    w.writeAll capacity bytes = (.ok (), { w with buf := w.buf ++ bytes }) := if_pos h

theorem writeAll_cases {capacity : Nat} (hcapacity : 0 < capacity) (w : BufWriter)
    (bytes : List UInt8) :
    ∃ w', w.file.content <+: w'.file.content ∧
      ((w.writeAll capacity bytes = (.ok (), w') ∧ w'.stream = w.stream ++ bytes)
        ∨ ∃ e taken, w.writeAll capacity bytes = (.error e, w') ∧
            w'.stream = w.stream ++ taken ∧ taken <+: bytes ∧ taken ≠ bytes) := by
  unfold writeAll
  split
  next =>
    refine ⟨{ w with buf := w.buf ++ bytes }, List.prefix_rfl, .inl ⟨rfl, ?_⟩⟩
    rw [stream, stream, List.append_assoc]
  next => exact w.writeAllCold_cases hcapacity bytes

end BufWriter

end Buffered
