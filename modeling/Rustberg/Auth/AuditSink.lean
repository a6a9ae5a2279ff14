import Rustberg.Base.BufWriter
import Rustberg.Base.Lines
import Rustberg.Base.Text

/-!
# The audit file

`FileSink` of `auth/audit_sink.rs`: a record is a line, and the line and
its newline are two writes through a buffer, flushed after each record.
What a refused record leaves behind stays in the file or in the buffer.
Where that is part of a line, or a line without its newline, the next
record is written on the end of it and acknowledged (`glued_record`).

`Kept` is the invariant of a run whose records each begin on a finished
line, and `acknowledged_lines` what it gives: every acknowledged record
is a line of the file, in order, once. `finished_of_fits` says which
records cannot leave an unfinished line.
-/

namespace Rustberg.Auth

open Buffered Lines

/-- What `BufWriter::new` sets aside. -/
def defaultBufSize : Nat := 8 * 1024

def newline : UInt8 := 10

inductive AuditError where
  | serialize (message : Text)
  | sink (e : IoError)

structure FileSink where
  writer : BufWriter

namespace FileSink

/-- The file is opened for appending. -/
def openAt (file : File) : FileSink := ⟨⟨file, []⟩⟩

def stream (s : FileSink) : List UInt8 := s.writer.stream

def content (s : FileSink) : List UInt8 := s.writer.file.content

end FileSink

/-- `serde_json::to_string` of an event, and what its texts are: one JSON object
each, without a control character and never the beginning of another. -/
structure Serializer (AuditEvent : Type) where
  toJson : AuditEvent → Except Text (List UInt8)
  newline_notMem : ∀ event line, toJson event = .ok line → newline ∉ line
  ne_nil : ∀ event line, toJson event = .ok line → line ≠ []
  delimited : ∀ event event' line line', toJson event = .ok line → toJson event' = .ok line' →
    line <+: line' → line = line'

variable {AuditEvent : Type} (ser : Serializer AuditEvent)

namespace FileSink

def writeLine (s : FileSink) (line : List UInt8) : Except IoError Unit × FileSink :=
  match s.writer.writeAll defaultBufSize line with
  | (.error e, w) => (.error e, ⟨w⟩)
  | (.ok (), w) =>
      match w.writeAll defaultBufSize [newline] with
      | (.error e, w) => (.error e, ⟨w⟩)
      | (.ok (), w) =>
          -- Flushed per record.
          match w.flush with
          | (.error e, w) => (.error e, ⟨w⟩)
          | (.ok (), w) => (.ok (), ⟨w⟩)

def write (s : FileSink) (event : AuditEvent) : Except AuditError Unit × FileSink :=
  match ser.toJson event with
  | .error message => (.error (.serialize message), s)
  | .ok line =>
      match s.writeLine line with
      | (.error e, s) => (.error (.sink e), s)
      | (.ok (), s) => (.ok (), s)

/-- What a line comes to: written, or refused with all of it and its newline, all of
it, or less than it taken. -/
inductive Written (s : FileSink) (line : List UInt8) : Except IoError Unit → FileSink → Prop
  | acknowledged {s' : FileSink} (hcontent : s'.content = s.stream ++ (line ++ [newline]))
      (hempty : s'.writer.buf = []) : Written s line (.ok ()) s'
  | unflushed {e : IoError} {s' : FileSink} (hcontent : s.content <+: s'.content)
      (hstream : s'.stream = s.stream ++ (line ++ [newline])) : Written s line (.error e) s'
  | unended {e : IoError} {s' : FileSink} (hcontent : s.content <+: s'.content)
      (hstream : s'.stream = s.stream ++ line) : Written s line (.error e) s'
  | cut {e : IoError} {s' : FileSink} (taken : List UInt8) (hcontent : s.content <+: s'.content)
      (hstream : s'.stream = s.stream ++ taken) (htaken : taken <+: line) (hcut : taken ≠ line) :
      Written s line (.error e) s'

theorem written_writeLine (s : FileSink) (line : List UInt8) :
    Written s line (s.writeLine line).1 (s.writeLine line).2 := by
  have hcapacity : 0 < defaultBufSize := by decide
  obtain ⟨w₁, hcontent₁, ⟨hline, hstream₁⟩ | ⟨e, taken, hline, hstream₁, htaken, hcut⟩⟩ :=
    s.writer.writeAll_cases hcapacity line
  · obtain ⟨w₂, hcontent₂, ⟨hend, hstream₂⟩ | ⟨e, taken, hend, hstream₂, htaken, hcut⟩⟩ :=
      w₁.writeAll_cases hcapacity [newline]
    · have hwhole : w₂.stream = s.stream ++ (line ++ [newline]) := by
        rw [hstream₂, hstream₁, List.append_assoc]
        rfl
      obtain ⟨w₃, hstream₃, hcontent₃, ⟨hflush, hempty⟩ | ⟨e, hflush⟩⟩ := w₂.flushBuf_cases
      · simp only [writeLine, hline, hend, BufWriter.flush, hflush]
        refine .acknowledged ?_ hempty
        rw [← hwhole, ← hstream₃, BufWriter.stream, hempty, List.append_nil]
        rfl
      · simp only [writeLine, hline, hend, BufWriter.flush, hflush]
        exact .unflushed ((hcontent₁.trans hcontent₂).trans hcontent₃) (hstream₃.trans hwhole)
    · simp only [writeLine, hline, hend]
      -- less than one byte is none
      obtain rfl : taken = [] := by
        rcases List.prefix_cons_iff.mp htaken with hnil | ⟨t, rfl, ht⟩
        · exact hnil
        · rw [List.prefix_nil.mp ht] at hcut
          exact absurd rfl hcut
      refine .unended (hcontent₁.trans hcontent₂) ?_
      rw [List.append_nil] at hstream₂
      exact hstream₂.trans hstream₁
  · simp only [writeLine, hline]
    exact .cut taken hcontent₁ hstream₁ htaken hcut

/-! ## Runs -/

/-- The sink after a run of records. -/
def after (s : FileSink) (events : List AuditEvent) : FileSink :=
  events.foldl (fun s event => (s.write ser event).2) s

/-- The line a write acknowledges. -/
def acknowledges (s : FileSink) (event : AuditEvent) : List (List UInt8) :=
  match ser.toJson event, (s.write ser event).1 with
  | .ok line, .ok () => [line]
  | _, _ => []

/-- The line a write refuses, although all of it was taken. -/
def leaves (s : FileSink) (event : AuditEvent) : List (List UInt8) :=
  match ser.toJson event, (s.write ser event).1 with
  | .ok line, .error _ =>
      if (s.stream ++ line).isPrefixOf (s.write ser event).2.stream then [line] else []
  | _, _ => []

/-- The acknowledged lines of a run, in order. -/
def acknowledged (s : FileSink) : List AuditEvent → List (List UInt8)
  | [] => []
  | event :: events => s.acknowledges ser event ++ acknowledged (s.write ser event).2 events

/-- The lines of a run that were refused although all of them were taken. -/
def left (s : FileSink) : List AuditEvent → List (List UInt8)
  | [] => []
  | event :: events => s.leaves ser event ++ left (s.write ser event).2 events

/-! ## The invariant -/

/-- The line of some event. -/
def IsLine (line : List UInt8) : Prop := ∃ event, ser.toJson event = .ok line

/-- What file and buffer hold together: finished lines and at most a last one cut
short. Acknowledged lines are in the file; what the buffer holds back was refused. -/
structure Kept (already acked refused : List (List UInt8)) (s : FileSink) : Prop where
  lines : ∃ settled pending tail,
    s.stream = terminated newline (already ++ settled ++ pending) ++ tail
      ∧ terminated newline (already ++ settled) <+: s.content
      ∧ acked.Sublist settled
      ∧ (∀ line, line ∉ refused → (settled ++ pending).count line = acked.count line)
      ∧ (∀ line ∈ pending, line ∈ refused)
      ∧ (∀ line ∈ already ++ settled ++ pending, newline ∉ line)
      ∧ newline ∉ tail
      ∧ (tail = [] ∨ tail ∈ refused ∨ ∃ line, IsLine ser line ∧ tail <+: line ∧ tail ≠ line)
  ackedLines : ∀ line ∈ acked, IsLine ser line
  refusedLines : ∀ line ∈ refused, IsLine ser line

variable {ser} {already acked refused : List (List UInt8)} {s : FileSink}

/-- A file of finished lines, when it is opened. -/
theorem Kept.openAt {file : File} {already : List (List UInt8)}
    (hcontent : file.content = terminated newline already)
    (halready : ∀ line ∈ already, newline ∉ line) : Kept ser already [] [] (openAt file) where
  lines := by
    refine ⟨[], [], [], ?_, ?_, List.nil_sublist _, by simp, by simp, by simpa using halready,
      by simp, .inl rfl⟩
    · simp [FileSink.openAt, stream, BufWriter.stream, hcontent]
    · simp [FileSink.openAt, content, hcontent]
  ackedLines := by simp
  refusedLines := by simp

section

variable {line : List UInt8} {s' : FileSink}

theorem Kept.acknowledge (h : Kept ser already acked refused s)
    (hfinished : Finished newline s.stream) (hline : IsLine ser line)
    (hcontent : s'.content = s.stream ++ (line ++ [newline])) (hempty : s'.writer.buf = []) :
    Kept ser already (acked ++ [line]) refused s' := by
  obtain ⟨⟨settled, pending, tail, hstream, hsettled, hacked, hcount, hpending, hclean, htail, -⟩,
    hackedLines, hrefusedLines⟩ := h
  rw [hstream] at hfinished
  obtain rfl := hfinished.tail_eq_nil htail
  obtain ⟨event, hevent⟩ := hline
  have hwhole : s'.content = terminated newline (already ++ (settled ++ pending ++ [line])) := by
    rw [hcontent, hstream, List.append_nil, ← terminated_snoc]
    simp
  refine ⟨⟨settled ++ pending ++ [line], [], [], ?_, ?_, ?_, ?_, by simp, ?_, by simp, .inl rfl⟩,
    List.forall_mem_append.mpr ⟨hackedLines, List.forall_mem_singleton.mpr ⟨event, hevent⟩⟩,
    hrefusedLines⟩
  · rw [List.append_nil, List.append_nil, ← hwhole, stream, BufWriter.stream, hempty,
      List.append_nil]
    rfl
  · rw [hwhole]
  · exact (hacked.trans (List.sublist_append_left _ _)).append (List.Sublist.refl _)
  · intro other hother
    have hlast : (settled ++ pending ++ [line]).count other
        = (settled ++ pending).count other + [line].count other := List.count_append
    rw [List.append_nil, hlast, hcount other hother, List.count_append]
  · rw [List.append_nil, ← List.append_assoc, ← List.append_assoc]
    exact List.forall_mem_append.mpr ⟨hclean, List.forall_mem_singleton.mpr
      (ser.newline_notMem event line hevent)⟩

theorem Kept.refuse (h : Kept ser already acked refused s) (hline : IsLine ser line)
    (hfinished : Finished newline s.stream) (hcontent : s.content <+: s'.content)
    (hstream' : s'.stream = s.stream ++ (line ++ [newline]) ∨ s'.stream = s.stream ++ line) :
    Kept ser already acked (refused ++ [line]) s' := by
  obtain ⟨⟨settled, pending, tail, hstream, hsettled, hacked, hcount, hpending, hclean, htail, -⟩,
    hackedLines, hrefusedLines⟩ := h
  rw [hstream] at hfinished
  obtain rfl := hfinished.tail_eq_nil htail
  obtain ⟨event, hevent⟩ := hline
  have hrefused : ∀ other ∈ refused ++ [line], IsLine ser other :=
    List.forall_mem_append.mpr ⟨hrefusedLines, List.forall_mem_singleton.mpr ⟨event, hevent⟩⟩
  have hclean' : newline ∉ line := ser.newline_notMem event line hevent
  rcases hstream' with hstream' | hstream'
  · refine ⟨⟨settled, pending ++ [line], [], ?_, hsettled.trans hcontent,
      hacked, ?_, ?_, ?_, by simp,
      .inl rfl⟩, hackedLines, hrefused⟩
    · rw [hstream', hstream, List.append_nil, List.append_nil, ← terminated_snoc]
      simp
    · intro other hother
      rw [List.mem_append, not_or, List.mem_singleton] at hother
      have hzero : [line].count other = 0 := List.count_eq_zero.mpr (by simpa using hother.2)
      rw [← List.append_assoc, List.count_append, hcount other hother.1, hzero, Nat.add_zero]
    · exact List.forall_mem_append.mpr ⟨fun other hother => List.mem_append_left _
        (hpending other hother), List.forall_mem_singleton.mpr (by simp)⟩
    · rw [← List.append_assoc]
      exact List.forall_mem_append.mpr ⟨hclean, List.forall_mem_singleton.mpr hclean'⟩
  · refine ⟨⟨settled, pending, line, ?_, hsettled.trans hcontent, hacked, ?_, ?_, hclean, hclean',
      .inr (.inl (by simp))⟩, hackedLines, hrefused⟩
    · rw [hstream', hstream, List.append_nil]
    · intro other hother
      exact hcount other fun hmem => hother (List.mem_append_left _ hmem)
    · exact fun other hother => List.mem_append_left _ (hpending other hother)

theorem Kept.cut (h : Kept ser already acked refused s) (hline : IsLine ser line)
    (hfinished : Finished newline s.stream) (hcontent : s.content <+: s'.content)
    {taken : List UInt8} (hstream' : s'.stream = s.stream ++ taken) (htaken : taken <+: line)
    (hcut : taken ≠ line) : Kept ser already acked refused s' := by
  obtain ⟨⟨settled, pending, tail, hstream, hsettled, hacked, hcount, hpending, hclean, htail, -⟩,
    hackedLines, hrefusedLines⟩ := h
  rw [hstream] at hfinished
  obtain rfl := hfinished.tail_eq_nil htail
  have hclean' : newline ∉ taken := by
    obtain ⟨event, hevent⟩ := hline
    exact fun hmem => ser.newline_notMem event line hevent (htaken.subset hmem)
  refine ⟨⟨settled, pending, taken, ?_, hsettled.trans hcontent, hacked, hcount, hpending, hclean,
    hclean', .inr (.inr ⟨line, hline, htaken, hcut⟩)⟩, hackedLines, hrefusedLines⟩
  rw [hstream', hstream, List.append_nil]

end

theorem write_ok {event : AuditEvent} {line : List UInt8} {s' : FileSink}
    (hevent : ser.toJson event = .ok line) (hresult : s.writeLine line = (.ok (), s')) :
    s.write ser event = (.ok (), s') ∧ s.acknowledges ser event = [line]
      ∧ s.leaves ser event = [] := by
  have hwrite : s.write ser event = (.ok (), s') := by
    simp only [FileSink.write, hevent, hresult]
  simp only [acknowledges, leaves, hevent, hwrite, and_self]

theorem write_error {event : AuditEvent} {line : List UInt8} {e : IoError} {s' : FileSink}
    (hevent : ser.toJson event = .ok line) (hresult : s.writeLine line = (.error e, s')) :
    s.write ser event = (.error (.sink e), s') ∧ s.acknowledges ser event = []
      ∧ s.leaves ser event = if s.stream ++ line <+: s'.stream then [line] else [] := by
  have hwrite : s.write ser event = (.error (.sink e), s') := by
    simp only [FileSink.write, hevent, hresult]
  simp only [acknowledges, leaves, hevent, hwrite, and_self, List.isPrefixOf_iff_prefix]

theorem Kept.write (h : Kept ser already acked refused s) (hfinished : Finished newline s.stream)
    (event : AuditEvent) :
    Kept ser already (acked ++ s.acknowledges ser event) (refused ++ s.leaves ser event)
      (s.write ser event).2 := by
  cases hevent : ser.toJson event with
  | error message => simpa [acknowledges, leaves, FileSink.write, hevent] using h
  | ok line =>
      have hline : IsLine ser line := ⟨event, hevent⟩
      have hwritten := written_writeLine s line
      generalize hresult : s.writeLine line = result at hwritten
      obtain ⟨outcome, s'⟩ := result
      cases hwritten with
      | acknowledged hcontent hempty =>
          obtain ⟨hwrite, hacked, hleft⟩ := write_ok hevent hresult
          rw [hwrite, hacked, hleft, List.append_nil]
          exact h.acknowledge hfinished hline hcontent hempty
      | unflushed hcontent hstream =>
          obtain ⟨hwrite, hacked, hleft⟩ := write_error hevent hresult
          have hwhole : s.stream ++ line <+: s'.stream := by
            rw [hstream, List.prefix_append_right_inj]
            exact List.prefix_append _ _
          rw [hwrite, hacked, hleft, if_pos hwhole, List.append_nil]
          exact h.refuse hline hfinished hcontent (.inl hstream)
      | unended hcontent hstream =>
          obtain ⟨hwrite, hacked, hleft⟩ := write_error hevent hresult
          have hwhole : s.stream ++ line <+: s'.stream := by rw [hstream]
          rw [hwrite, hacked, hleft, if_pos hwhole, List.append_nil]
          exact h.refuse hline hfinished hcontent (.inr hstream)
      | cut taken hcontent hstream htaken hcut =>
          obtain ⟨hwrite, hacked, hleft⟩ := write_error hevent hresult
          have hless : ¬ s.stream ++ line <+: s'.stream := by
            rw [hstream, List.prefix_append_right_inj]
            exact fun hline => hcut (htaken.eq_of_length_le hline.length_le)
          rw [hwrite, hacked, hleft, if_neg hless, List.append_nil, List.append_nil]
          exact h.cut hline hfinished hcontent hstream htaken hcut

theorem Kept.run (h : Kept ser already acked refused s) (events : List AuditEvent)
    (hfinished : ∀ before event rest, events = before ++ event :: rest →
      Finished newline (s.after ser before).stream) :
    Kept ser already (acked ++ s.acknowledged ser events) (refused ++ s.left ser events)
      (s.after ser events) := by
  induction events generalizing s acked refused with
  | nil => simpa [acknowledged, left, after] using h
  | cons event events ih =>
      have hstep := h.write (hfinished [] event events rfl) event
      have hrest := ih hstep fun before event' rest hevents =>
        hfinished (event :: before) event' rest (by rw [hevents]; rfl)
      rw [List.append_assoc, List.append_assoc] at hrest
      exact hrest

/-- An acknowledged line that was not also refused is a line of the file, once for
each time it was acknowledged. -/
theorem Kept.read (h : Kept ser already acked refused s)
    (hdistinct : ∀ line ∈ acked, line ∉ refused) :
    acked.Sublist (s.content.splitOn newline) ∧
      ∀ line ∈ acked, (s.content.splitOn newline).count line
        = already.count line + acked.count line := by
  obtain ⟨⟨settled, pending, tail, hstream, ⟨rest, hrest⟩, hacked, hcount, hpending, hclean, htail,
    hcut⟩, hackedLines, hrefusedLines⟩ := h
  have hsettledClean : ∀ line ∈ already ++ settled, newline ∉ line :=
    fun line hline => hclean line (List.mem_append_left _ hline)
  -- what follows the settled lines in the file is a beginning of what was refused
  have hbeginning : rest <+: terminated newline pending ++ tail := by
    refine ⟨s.writer.buf, ?_⟩
    have hwhole : s.content ++ s.writer.buf
        = terminated newline (already ++ settled ++ pending) ++ tail := hstream
    have hsplit : terminated newline (already ++ settled ++ pending)
        = terminated newline (already ++ settled) ++ terminated newline pending :=
      terminated_append pending
    rw [hsplit, ← hrest, List.append_assoc, List.append_assoc] at hwhole
    exact List.append_cancel_left hwhole
  have hpieces : s.content.splitOn newline = already ++ settled ++ rest.splitOn newline := by
    rw [← hrest, splitOn_terminated_append hsettledClean]
  have hout : ∀ line ∈ acked, line ∉ rest.splitOn newline := by
    intro line hline hpiece
    obtain ⟨event, hevent⟩ := hackedLines line hline
    obtain ⟨other, hother, hstarts⟩ := prefix_of_mem_splitOn
      (fun line hline => hclean line (List.mem_append_right _ hline)) htail hbeginning hpiece
    have hrefused : ∀ other ∈ refused, ¬ line <+: other := by
      intro other hother hstarts
      obtain ⟨event', hevent'⟩ := hrefusedLines other hother
      obtain rfl := ser.delimited event event' line other hevent hevent' hstarts
      exact hdistinct line hline hother
    rcases List.mem_append.mp hother with hother | hother
    · exact hrefused other (hpending other hother) hstarts
    · obtain rfl := List.mem_singleton.mp hother
      rcases hcut with rfl | hmem | ⟨whole, ⟨event', hevent'⟩, htaken, hne⟩
      · exact ser.ne_nil event line hevent (List.prefix_nil.mp hstarts)
      · exact hrefused other hmem hstarts
      · obtain rfl := ser.delimited event event' line whole hevent hevent' (hstarts.trans htaken)
        exact hne (htaken.eq_of_length_le hstarts.length_le)
  have hnotPending : ∀ line ∈ acked, line ∉ pending :=
    fun line hline hmem => hdistinct line hline (hpending line hmem)
  rw [hpieces]
  constructor
  · rw [List.append_assoc]
    exact (hacked.trans (List.sublist_append_left _ _)).trans (List.sublist_append_right _ _)
  · intro line hline
    have hsettled : settled.count line = acked.count line := by
      rw [← hcount line (hdistinct line hline), List.count_append,
        List.count_eq_zero.mpr (hnotPending line hline), Nat.add_zero]
    rw [List.count_append, List.count_append, hsettled, List.count_eq_zero.mpr (hout line hline),
      Nat.add_zero]

/-- A record that fits the buffer with what is held back leaves no unfinished line. -/
theorem finished_of_fits {event : AuditEvent} {line : List UInt8}
    (hevent : ser.toJson event = .ok line)
    (hfits : s.writer.buf.length + line.length + 1 < defaultBufSize) :
    Finished newline (s.write ser event).2.stream := by
  have hline : s.writer.writeAll defaultBufSize line
      = (.ok (), { s.writer with buf := s.writer.buf ++ line }) :=
    BufWriter.writeAll_fits (by omega)
  have hend : ({ s.writer with buf := s.writer.buf ++ line } : BufWriter).writeAll defaultBufSize
      [newline] = (.ok (), { s.writer with buf := s.writer.buf ++ line ++ [newline] }) := by
    refine BufWriter.writeAll_fits ?_
    simp only [List.length_append, List.length_singleton]
    omega
  obtain ⟨w, hstream, -, hflush⟩ :=
    BufWriter.flushBuf_cases { s.writer with buf := s.writer.buf ++ line ++ [newline] }
  have hended : Finished newline w.stream := by
    refine .inr ⟨s.stream ++ line, ?_⟩
    rw [hstream, stream, BufWriter.stream, BufWriter.stream]
    simp only [List.append_assoc]
  rcases hflush with ⟨hflush, -⟩ | ⟨e, hflush⟩
  · have hresult : s.writeLine line = (.ok (), ⟨w⟩) := by
      simp only [writeLine, hline, hend, BufWriter.flush, hflush]
    rw [(write_ok hevent hresult).1]
    exact hended
  · have hresult : s.writeLine line = (.error e, ⟨w⟩) := by
      simp only [writeLine, hline, hend, BufWriter.flush, hflush]
    rw [(write_error hevent hresult).1]
    exact hended

end FileSink

open FileSink

/-- Every acknowledged record is a line of the file, in the order of the writes and once
for each, where each record begins on a finished line and none that was refused with its
line taken is also acknowledged. -/
theorem acknowledged_lines {AuditEvent : Type} (ser : Serializer AuditEvent) (file : File)
    (events : List AuditEvent)
    (hfinished : ∀ before event rest, events = before ++ event :: rest →
      Finished newline ((openAt file).after ser before).stream)
    (hdistinct : ∀ line ∈ (openAt file).acknowledged ser events,
      line ∉ (openAt file).left ser events) :
    let lines := ((openAt file).after ser events).content.splitOn newline
    ((openAt file).acknowledged ser events).Sublist lines ∧
      ∀ line ∈ (openAt file).acknowledged ser events,
        lines.count line = (file.content.splitOn newline).count line +
          ((openAt file).acknowledged ser events).count line := by
  intro lines
  rcases events with _ | ⟨event, events⟩
  · exact ⟨List.nil_sublist _, fun line hline => absurd hline List.not_mem_nil⟩
  · have hopened : Finished newline file.content := by
      have hstream := hfinished [] event events rfl
      rwa [after, List.foldl_nil, openAt, stream, BufWriter.stream, List.append_nil] at hstream
    obtain ⟨already, hcontent, halready⟩ := hopened.exists_terminated
    have hempty : Kept ser already [] [] (openAt file) := .openAt hcontent halready
    have hkept := hempty.run (event :: events) hfinished
    rw [List.nil_append, List.nil_append] at hkept
    obtain ⟨hsublist, hcount⟩ := hkept.read hdistinct
    refine ⟨hsublist, fun line hline => ?_⟩
    obtain ⟨source, hsource⟩ := hkept.ackedLines line hline
    have hnil : line ≠ [] := ser.ne_nil source line hsource
    have hbefore : (file.content.splitOn newline).count line = already.count line := by
      rw [hcontent, ← List.append_nil (terminated newline already),
        splitOn_terminated_append halready, List.count_append]
      simp [Ne.symm hnil]
    rw [hbefore]
    exact hcount line hline

/-! ## A long record cut short -/

/-- A line that does not fit goes straight to the file, which may take one byte of it. -/
theorem writeLine_long {line : List UInt8} (hlong : defaultBufSize < line.length)
    (content : List UInt8) (code : Int) (answers : List WriteAnswer) :
    (openAt ⟨content, .wrote 1 :: .failed code :: answers⟩).writeLine line
      = (.error (.os code), openAt ⟨content ++ line.take 1, answers⟩) := by
  have hroom : ¬ line.length < defaultBufSize - ([] : List UInt8).length := by
    rw [List.length_nil]
    omega
  have hover : defaultBufSize - ([] : List UInt8).length < line.length := by
    rw [List.length_nil]
    omega
  have hflush : (⟨⟨content, .wrote 1 :: .failed code :: answers⟩, []⟩ : BufWriter).flushBuf
      = (.ok (), ⟨⟨content, .wrote 1 :: .failed code :: answers⟩, []⟩) := by
    simp [BufWriter.flushBuf, File.writeAll]
  have hdrain : drain (.wrote 1 :: .failed code :: answers) content line
      = ⟨.error (.os code), line.drop 1, ⟨content ++ line.take 1, answers⟩⟩ := by
    obtain ⟨b, c, rest, rfl⟩ : ∃ b c rest, line = b :: c :: rest := by
      rcases line with _ | ⟨b, _ | ⟨c, rest⟩⟩
      · simp at hlong
      · simp [defaultBufSize] at hlong
      · exact ⟨b, c, rest, rfl⟩
    rfl
  simp only [writeLine, openAt, BufWriter.writeAll, if_neg hroom, BufWriter.writeAllCold,
    if_pos hover, hflush, if_pos (Nat.le_of_lt hlong), File.writeAll, hdrain]

/-- The object with one member, `id`. -/
def sampleLine (id : List UInt8) : List UInt8 := [123, 34, 105, 100, 34, 58, 34] ++ id ++ [34, 125]

def longLine (n : Nat) : List UInt8 := sampleLine (97 :: List.replicate n 97)

def shortLine : List UInt8 := sampleLine [98]

theorem newline_notMem_sampleLine {id : List UInt8} (hid : newline ∉ id) :
    newline ∉ sampleLine id := by
  have hends : newline ∉ ([123, 34, 105, 100, 34, 58, 34] : List UInt8) ∧
      newline ∉ ([34, 125] : List UInt8) := by decide
  rw [sampleLine, List.mem_append, List.mem_append]
  exact not_or.mpr ⟨not_or.mpr ⟨hends.1, hid⟩, hends.2⟩

theorem length_longLine (n : Nat) : (longLine n).length = 10 + n := by
  simp [longLine, sampleLine]
  omega

theorem lines_apart (n : Nat) : ¬ longLine n <+: shortLine ∧ ¬ shortLine <+: longLine n := by
  simp [longLine, shortLine, sampleLine]

/-- Two events, one of which can be as long as one likes. -/
def sampleSerializer (n : Nat) : Serializer Bool where
  toJson
    | true => .ok (longLine n)
    | false => .ok shortLine
  newline_notMem := by
    rintro (_ | _) line ⟨⟩
    · exact newline_notMem_sampleLine (by decide)
    · exact newline_notMem_sampleLine (by simp [newline])
  ne_nil := by
    rintro (_ | _) line ⟨⟩
    · simp [shortLine, sampleLine]
    · simp [longLine, sampleLine]
  delimited := by
    rintro (_ | _) (_ | _) line line' ⟨⟩ ⟨⟩ hstarts
    · rfl
    · exact absurd hstarts (lines_apart n).2
    · exact absurd hstarts (lines_apart n).1
    · rfl

/-- The file takes one byte of a long record; a short one is written after it. -/
theorem writes_glued {n : Nat} (hlong : defaultBufSize < 10 + n) :
    (openAt ⟨[], [.wrote 1, .failed 28]⟩).acknowledged (sampleSerializer n) [true, false]
        = [shortLine]
      ∧ ((openAt ⟨[], [.wrote 1, .failed 28]⟩).after (sampleSerializer n) [true, false]).content
        = 123 :: shortLine ++ [newline] := by
  have hfirst : (openAt ⟨[], [.wrote 1, .failed 28]⟩).writeLine (longLine n)
      = (.error (.os 28), openAt ⟨[123], []⟩) :=
    writeLine_long (by rwa [length_longLine]) [] 28 []
  have hsecond : (openAt ⟨[123], []⟩).writeLine shortLine
      = (.ok (), openAt ⟨123 :: shortLine ++ [newline], []⟩) := rfl
  have hevent : (sampleSerializer n).toJson true = .ok (longLine n) := rfl
  have hevent' : (sampleSerializer n).toJson false = .ok shortLine := rfl
  obtain ⟨hwrite, hacked, -⟩ := write_error hevent hfirst
  obtain ⟨hwrite', hacked', -⟩ := write_ok hevent' hsecond
  constructor
  · simp only [acknowledged, hwrite, hacked, hacked', List.nil_append, List.append_nil]
  · simp only [after, List.foldl_cons, List.foldl_nil, hwrite, hwrite']
    rfl

theorem glued_record :
    ¬ ∀ (AuditEvent : Type) (ser : Serializer AuditEvent) (answers : List WriteAnswer)
        (events : List AuditEvent), ((openAt ⟨[], answers⟩).acknowledged ser events).Sublist
          (((openAt ⟨[], answers⟩).after ser events).content.splitOn newline) := by
  intro hall
  have hlines := hall Bool (sampleSerializer 8192) [.wrote 1, .failed 28] [true, false]
  obtain ⟨hacked, hcontent⟩ := @writes_glued 8192 (by decide)
  have hpieces : (123 :: shortLine ++ [newline]).splitOn newline = [123 :: shortLine, []] := rfl
  rw [hacked, hcontent, hpieces] at hlines
  exact absurd hlines (by decide)

/-- The file takes a short record in two parts, refuses the next, whose line the buffer
keeps, and then takes all there is. -/
def faltering : File := ⟨[], [.wrote 3, .interrupted, .wrote 8, .failed 28]⟩

def threeLines : List UInt8 := terminated newline [shortLine, longLine 0, shortLine]

theorem faltering_acknowledged : (openAt faltering).acknowledged (sampleSerializer 0)
    [false, true, false] = [shortLine, shortLine] := rfl

theorem faltering_left : (openAt faltering).left (sampleSerializer 0) [false, true, false] =
    [longLine 0] := rfl

theorem faltering_content : ((openAt faltering).after (sampleSerializer 0)
    [false, true, false]).content = threeLines := rfl

/-- Each of the three records begins on a finished line. -/
theorem faltering_finished (before rest : List Bool) (event : Bool)
    (hevents : [false, true, false] = before ++ event :: rest) :
    Finished newline ((openAt faltering).after (sampleSerializer 0) before).stream := by
  rcases before with _ | ⟨_, _ | ⟨_, _ | ⟨_, before⟩⟩⟩
  · exact .inl rfl
  · cases hevents
    exact .inr ⟨shortLine, rfl⟩
  · cases hevents
    exact .inr ⟨shortLine ++ newline :: longLine 0, rfl⟩
  · simp at hevents

theorem acknowledged_lines_faltering :
    [shortLine, shortLine].Sublist (threeLines.splitOn newline) ∧
      (threeLines.splitOn newline).count shortLine = 2 := by
  have hread := acknowledged_lines (sampleSerializer 0) faltering [false, true, false]
    (fun before event rest => faltering_finished before rest event) (by
      rw [faltering_acknowledged, faltering_left]
      decide)
  rw [faltering_acknowledged, faltering_content] at hread
  exact ⟨hread.1, hread.2 shortLine (by simp)⟩

end Rustberg.Auth
