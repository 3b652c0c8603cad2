import DynamoCpp.Llm.Protocols.SseDecoder
import Mathlib.Data.List.DropRight

/-! # What is read back of a message

    The text of a message is a list of lines, and a fresh decoder handles them one by one.

    The data comes back unless the decoder takes something off it: spaces at the start of a
    line, line feeds in front of the first line that has a text, and the last line feed
    (`data_round_trips_iff`).

    Comments, id and event are written as they are.  What stands behind a line feed in one of
    them is a line of its own, which the decoder reads like any other; `not_injected_iff` says
    when that does no harm.
-/

namespace DynamoCpp.Llm

open Framework SseFields Sse

/-! ## The lines of a message -/

/-- The lines that are written for a name and a value. -/
def valueLines (name value : Bytes) : List Bytes :=
  (value.splitOn '\n'.toUInt8).modifyHead (name ++ ·)

def dataLines (data : Bytes) : List Bytes :=
  (data.splitOn '\n'.toUInt8).map (str "data: " ++ ·)

/-- The lines up to the blank one at the end. -/
def SseMessage.body (m : SseMessage) : List Bytes :=
  (m.comments.getD []).flatMap (valueLines (str ": ")) ++
    m.id.toList.flatMap (valueLines (str "id: ")) ++
    m.event.toList.flatMap (valueLines (str "event: ")) ++
    m.data.toList.flatMap dataLines

def SseMessage.lines (m : SseMessage) : List Bytes := m.body ++ [[]]

/-- The lines with their ends. -/
def joinLines (lines : List Bytes) : Bytes := lines.flatMap fun line => line ++ ['\n'.toUInt8]

theorem str_newline : str "\n" = ['\n'.toUInt8] := by decide

theorem joinLines_append (lines lines' : List Bytes) :
    joinLines (lines ++ lines') = joinLines lines ++ joinLines lines' := List.flatMap_append

theorem joinLines_flatMap {α : Type} (xs : List α) (f : α → List Bytes) :
    joinLines (xs.flatMap f) = xs.flatMap fun x => joinLines (f x) := List.flatMap_assoc

theorem sseLine_eq (name value : Bytes) :
    sseLine name value = joinLines (valueLines name value) := by
  obtain ⟨first, more, hsplit⟩ := exists_splitOn_eq '\n'.toUInt8 value
  have hjoin := flatMap_splitOn '\n'.toUInt8 value
  unfold sseLine valueLines joinLines
  rw [hsplit, List.flatMap_cons] at hjoin
  rw [hsplit, List.modifyHead_cons, List.flatMap_cons, str_newline, List.append_assoc, ← hjoin]
  simp

theorem dataLines_eq (data : Bytes) :
    ((data.splitOn '\n'.toUInt8).flatMap (sseLine (str "data: "))) =
      joinLines (dataLines data) := by
  have hline : sseLine (str "data: ") =
      fun segment => str "data: " ++ segment ++ ['\n'.toUInt8] := by
    funext segment
    rw [sseLine, str_newline]
  rw [joinLines, dataLines, List.flatMap_map, hline]

/-- The text of a message is its lines. -/
theorem encodeSse_eq (m : SseMessage) : encodeSse m = joinLines m.lines := by
  have hend : str "\n" = joinLines [[]] := by decide
  unfold encodeSse SseMessage.lines SseMessage.body
  rw [joinLines_append, joinLines_append, joinLines_append, joinLines_append, joinLines_flatMap,
    joinLines_flatMap, joinLines_flatMap, joinLines_flatMap, ← hend]
  simp only [← sseLine_eq, ← dataLines_eq]

theorem valueLines_notMem {name value line : Bytes} (hname : '\n'.toUInt8 ∉ name)
    (h : line ∈ valueLines name value) : '\n'.toUInt8 ∉ line := by
  obtain ⟨first, more, hsplit⟩ := exists_splitOn_eq '\n'.toUInt8 value
  have hsegments : ∀ segment ∈ first :: more, '\n'.toUInt8 ∉ segment := by
    intro segment hsegment
    rw [← hsplit] at hsegment
    exact notMem_of_mem_splitOn hsegment
  unfold valueLines at h
  rw [hsplit, List.modifyHead_cons] at h
  rcases List.mem_cons.mp h with rfl | hmore
  · rw [List.mem_append]
    exact fun h => h.elim hname (hsegments first List.mem_cons_self)
  · exact hsegments line (List.mem_cons_of_mem _ hmore)

theorem SseMessage.lines_notMem (m : SseMessage) : ∀ line ∈ m.lines, '\n'.toUInt8 ∉ line := by
  intro line hline
  simp only [lines, body, List.mem_append, List.mem_flatMap, List.mem_singleton] at hline
  rcases hline with (((⟨c, _, h⟩ | ⟨c, _, h⟩) | ⟨c, _, h⟩) | ⟨data, _, h⟩) | rfl
  · exact valueLines_notMem (by decide) h
  · exact valueLines_notMem (by decide) h
  · exact valueLines_notMem (by decide) h
  · obtain ⟨segment, hsegment, rfl⟩ := List.mem_map.mp h
    rw [List.mem_append]
    exact fun h => h.elim (by decide) (notMem_of_mem_splitOn hsegment)
  · exact List.not_mem_nil

/-- A fresh decoder handles the lines of a message one by one. -/
theorem feed_encodeSse (m : SseMessage) :
    (SseDecoder.feed {} (encodeSse m)).2 = (transduce processLine {} m.lines).2 := by
  rw [SseDecoder.feed_eq, encodeSse_eq, joinLines]
  exact congrArg Prod.snd (transduce_lines m.lines_notMem)

/-! ## One line -/

namespace Sse

/-- What is read of a value. -/
def valueOf (value : Bytes) : Bytes := (stripEnd value).dropWhile fun c => c = ' '.toUInt8

/-- The characters of the end are only taken off the value. -/
theorem stripEnd_append {c : UInt8} (hc : ¬ (c = '\r'.toUInt8 ∨ c = '\n'.toUInt8))
    (front value : Bytes) : stripEnd (front ++ c :: value) = front ++ c :: stripEnd value := by
  -- from the end of the line, nothing in front of `c` is reached
  have hstop : (c :: front.reverse).dropWhile (fun c => c = '\r'.toUInt8 ∨ c = '\n'.toUInt8) =
      c :: front.reverse := List.dropWhile_cons_of_neg (by simpa using hc)
  unfold stripEnd
  rw [List.reverse_append, List.reverse_cons, List.append_assoc, List.singleton_append,
    List.dropWhile_append, hstop]
  split
  · next hempty =>
    rw [List.isEmpty_iff.mp hempty]
    simp
  · simp

theorem stripEnd_isPrefix (line : Bytes) : stripEnd line <+: line :=
  List.rdropWhile_prefix _ _

/-- A line without carriage returns has no more to take off. -/
theorem stripEnd_of_notMem {line : Bytes} (hcr : '\r'.toUInt8 ∉ line) (hlf : '\n'.toUInt8 ∉ line) :
    stripEnd line = line := by
  refine List.rdropWhile_eq_self_iff.mpr fun hne => ?_
  have hlast := List.getLast_mem hne
  simp only [decide_eq_true_eq]
  rintro (h | h)
  · exact hcr (h ▸ hlast)
  · exact hlf (h ▸ hlast)

theorem valueOf_isInfix (value : Bytes) : valueOf value <:+: value :=
  (List.dropWhile_suffix _).isInfix.trans (stripEnd_isPrefix value).isInfix

theorem stripEnd_field (name value : Bytes) :
    stripEnd (name ++ str ": " ++ value) =
      name ++ ':'.toUInt8 :: ' '.toUInt8 :: stripEnd value := by
  have hcolon : str ": " = [':'.toUInt8, ' '.toUInt8] := by decide
  have hsplit : name ++ str ": " ++ value = (name ++ [':'.toUInt8]) ++ ' '.toUInt8 :: value := by
    simp [hcolon]
  rw [hsplit, stripEnd_append (by decide)]
  simp

/-- Name and value of a line that was written for them. -/
theorem fieldOf_stripEnd {name : Bytes} (hname : ':'.toUInt8 ∉ name) (value : Bytes) :
    fieldOf (stripEnd (name ++ str ": " ++ value)) = (name, valueOf value) := by
  have hcut : cut ':'.toUInt8 (name ++ ':'.toUInt8 :: ' '.toUInt8 :: stripEnd value) =
      some (name, ' '.toUInt8 :: stripEnd value) := cut_eq_some.mpr ⟨hname, rfl⟩
  rw [stripEnd_field, fieldOf, hcut]
  rfl

end Sse

namespace SseFields

theorem takePending_snd (f : SseFields) : f.takePending.2 = {} := by
  unfold takePending
  split
  · next hnone =>
    cases f
    simp_all
  · rfl

/-- Fields of which no message can be made have nothing to give. -/
theorem takePending_fst (f : SseFields) :
    f.takePending.1 = if f.message.empty then none else some f.message := by
  unfold takePending
  split
  · next hnone =>
    obtain ⟨hdata, hevent, hid, hcomments⟩ := hnone
    have hempty : f.message.empty = true := by
      simp [message, SseMessage.empty, dataText, nonEmpty, hdata, hevent, hid, hcomments]
    rw [if_pos hempty]
  · rfl

end SseFields

/-! ## What lines say -/

namespace Sse

/-- The text of a comment line. -/
def commentText (line : Bytes) : Option Bytes :=
  if (stripEnd line).head? = some ':'.toUInt8 then some (trim (stripEnd line).tail) else none

/-- The value of a line for the field of the given name. -/
def fieldValue (name line : Bytes) : Option Bytes :=
  if (stripEnd line).head? ≠ some ':'.toUInt8 ∧ (fieldOf (stripEnd line)).1 = name then
    some (fieldOf (stripEnd line)).2
  else none

/-- The values behind each other, from the first that is not empty on. -/
def joinData (values : List Bytes) : Bytes :=
  values.foldl (fun data value => (if data = [] then [] else data ++ str "\n") ++ value) []

/-- What lines say that are not blank: all comments, the last event, the last id without a NUL
    and the data other than the sentinel. -/
def fieldsOf (lines : List Bytes) : SseFields where
  comments := lines.filterMap commentText
  event    := (lines.filterMap (fieldValue (str "event"))).getLastD []
  id       := ((lines.filterMap (fieldValue (str "id"))).filter (0 ∉ ·)).getLastD []
  data     := joinData
    ((lines.filterMap (fieldValue (str "data"))).filter (· ≠ kSseDoneSentinel))

def blank (line : Bytes) : Bool := stripEnd line = []

/-- The lines between the blank ones. -/
def segments (lines : List Bytes) : List (List Bytes) := lines.splitOnP blank

/-- There is a message of the segment. -/
def speaks (segment : List Bytes) : Bool := !(fieldsOf segment).message.empty

/-- The decoder has what the lines up to now say. -/
theorem processLine_fieldsOf (front : List Bytes) {line : Bytes} (hline : blank line = false) :
    (fieldsOf front).processLine line = (fieldsOf (front ++ [line]), []) := by
  have hne : stripEnd line ≠ [] := of_decide_eq_false hline
  unfold processLine
  dsimp only
  rw [if_neg hne]
  by_cases hcomment : (stripEnd line).head? = some ':'.toUInt8
  · have hfield : ∀ name, fieldValue name line = none := fun name => if_neg fun h => h.1 hcomment
    rw [if_pos hcomment]
    simp [fieldsOf, List.filterMap_append, commentText, if_pos hcomment, hfield]
  · have hnone : commentText line = none := if_neg hcomment
    have hfield : ∀ name, fieldValue name line =
        if (fieldOf (stripEnd line)).1 = name then some (fieldOf (stripEnd line)).2 else none :=
      fun name => by simp [fieldValue, hcomment]
    have hkinds : str "data" ≠ str "event" ∧ str "id" ≠ str "event" ∧ str "id" ≠ str "data" := by
      decide
    rw [if_neg hcomment]
    generalize fieldOf (stripEnd line) = field at hfield
    obtain ⟨name, value⟩ := field
    refine Prod.ext ?_ rfl
    unfold setField fieldsOf joinData
    simp only [List.filterMap_append, List.filterMap_cons, List.filterMap_nil, hnone, hfield,
      List.append_nil]
    by_cases hevent : name = str "event"
    · subst hevent
      simp [hkinds.1.symm, hkinds.2.1.symm]
    by_cases hdata : name = str "data"
    · subst hdata
      by_cases hdone : value = kSseDoneSentinel <;> simp [hkinds.1, hkinds.2.2.symm, hdone]
    by_cases hid : name = str "id"
    · subst hid
      by_cases hnul : 0 ∈ value <;> simp [hkinds.2, hnul]
    simp [hevent, hdata, hid]

theorem transduce_segments (lines : List Bytes) : ∀ {front : List Bytes},
    (∀ line ∈ front, blank line = false) →
      (transduce processLine (fieldsOf front) (lines ++ [[]])).2 =
        (segments (front ++ lines)).filterMap fun segment => (fieldsOf segment).takePending.1 := by
  induction lines with
  | nil =>
    intro front hfront
    have hone : segments (front ++ []) = [front] := by
      rw [List.append_nil]
      exact List.splitOnP_eq_singleton fun line hline => by simp [hfront line hline]
    rw [hone, List.nil_append, transduce_singleton, SseDecoder.processLine_blank]
    cases htake : (fieldsOf front).takePending.1 <;> simp [htake]
  | cons line lines ih =>
    intro front hfront
    rw [List.cons_append, transduce_cons]
    cases hblank : blank line with
    | true =>
      have hsplit : segments (front ++ line :: lines) = front :: segments lines :=
        List.splitOnP_append_cons_of_forall_mem (fun l hl => by simp [hfront l hl]) _ hblank _
      have hempty : stripEnd line = [] := of_decide_eq_true hblank
      have hend : (fieldsOf front).processLine line =
          ({}, (fieldsOf front).takePending.1.toList) := by
        unfold processLine
        dsimp only
        rw [if_pos hempty, takePending_snd]
      have hrest := @ih [] (by simp)
      rw [hend, hsplit]
      dsimp only
      rw [show ({} : SseFields) = fieldsOf [] from rfl, hrest]
      cases htake : (fieldsOf front).takePending.1 <;> simp [htake]
    | false =>
      have hrest := ih (List.forall_mem_append.mpr ⟨hfront, List.forall_mem_singleton.mpr hblank⟩)
      rw [List.append_assoc, List.singleton_append] at hrest
      rw [processLine_fieldsOf front hblank]
      exact hrest

end Sse

/-- All that is returned for a message: one message for each segment that speaks. -/
theorem feed_segments (m : SseMessage) :
    (SseDecoder.feed {} (encodeSse m)).2 =
      ((segments m.body).filter speaks).map fun segment => (fieldsOf segment).message := by
  have hfeed := @transduce_segments m.body [] (by simp)
  rw [feed_encodeSse, SseMessage.lines]
  refine hfeed.trans ?_
  rw [List.nil_append, ← List.filterMap_eq_map, List.filterMap_filter]
  refine List.filterMap_congr fun segment _ => ?_
  rw [takePending_fst, speaks]
  cases (fieldsOf segment).message.empty <;> rfl

/-! ### Lines that were written for texts -/

/-- The line for a text behind a name; a comment has no name. -/
def written (text : Bytes × Bytes) : Bytes := text.1 ++ str ": " ++ text.2

theorem read_written {name : Bytes} (hname : ':'.toUInt8 ∉ name) (text : Bytes) :
    blank (written (name, text)) = false ∧
      commentText (written (name, text)) =
        (if name = [] then some (trim (' '.toUInt8 :: stripEnd text)) else none) ∧
      ∀ n ≠ [], fieldValue n (written (name, text)) =
        if name = n then some (valueOf text) else none := by
  have hline := stripEnd_field name text
  have hfield := fieldOf_stripEnd hname text
  unfold blank commentText fieldValue written
  rw [hfield, hline]
  cases name with
  | nil => simp
  | cons c rest =>
    have hhead : c ≠ ':'.toUInt8 := fun h => hname (h ▸ List.mem_cons_self)
    simp [hhead]

section written

variable {texts : List (Bytes × Bytes)}

theorem segments_written (hnames : ∀ text ∈ texts, ':'.toUInt8 ∉ text.1) :
    segments (texts.map written) = [texts.map written] := by
  refine List.splitOnP_eq_singleton fun line hline => ?_
  obtain ⟨text, htext, rfl⟩ := List.mem_map.mp hline
  exact (read_written (hnames text htext) text.2).1

theorem comments_written (hnames : ∀ text ∈ texts, ':'.toUInt8 ∉ text.1) :
    (texts.map written).filterMap commentText = texts.filterMap fun text =>
      if text.1 = [] then some (trim (' '.toUInt8 :: stripEnd text.2)) else none := by
  rw [List.filterMap_map]
  exact List.filterMap_congr fun text htext => (read_written (hnames text htext) text.2).2.1

theorem values_written (hnames : ∀ text ∈ texts, ':'.toUInt8 ∉ text.1) {n : Bytes} (hn : n ≠ []) :
    (texts.map written).filterMap (fieldValue n) =
      texts.filterMap fun text => if text.1 = n then some (valueOf text.2) else none := by
  rw [List.filterMap_map]
  exact List.filterMap_congr fun text htext => (read_written (hnames text htext) text.2).2.2 n hn

end written

/-! ## Data -/

/-- The data with one more line. -/
def addData (data value : Bytes) : Bytes :=
  if Sse.valueOf value = kSseDoneSentinel then data
  else (if data = [] then [] else data ++ str "\n") ++ Sse.valueOf value

/-- What the decoder holds when it has read the lines of the data. -/
def readData (data : Bytes) : Bytes := (data.splitOn '\n'.toUInt8).foldl addData []

/-- All that is returned for a message with data only. -/
theorem feed_data (data : Bytes) :
    (SseDecoder.feed {} (encodeSse { data := some data })).2 =
      ((nonEmpty (dataText { data := readData data })).map
        fun text => ({ data := some text } : SseMessage)).toList := by
  let texts := (data.splitOn '\n'.toUInt8).map (Prod.mk (str "data"))
  have hcolon : ':'.toUInt8 ∉ str "data" := by decide
  have hnames : ∀ text ∈ texts, ':'.toUInt8 ∉ text.1 := List.forall_mem_map.mpr fun _ _ => hcolon
  have hbody : SseMessage.body { data := some data } = texts.map written := by
    simp only [SseMessage.body, texts, List.map_map]
    exact List.append_nil _
  have hfields : fieldsOf (texts.map written) = { data := readData data } := by
    unfold fieldsOf
    rw [comments_written hnames, values_written hnames (by decide),
      values_written hnames (by decide), values_written hnames (by decide)]
    simp +decide [texts, List.filterMap_map, joinData, readData, List.foldl_filter, List.foldl_map]
    rfl
  rw [feed_segments, hbody, segments_written hnames]
  by_cases hempty : dataText { data := readData data } = [] <;>
    simp [speaks, hfields, message, SseMessage.empty, nonEmpty, hempty]

/-! ### What is taken off -/

/-- A line of which the decoder can at most take off spaces. -/
structure Plain (line : Bytes) : Prop where
  noReturn : '\r'.toUInt8 ∉ line
  noFeed   : '\n'.toUInt8 ∉ line
  notDone  : line ≠ kSseDoneSentinel

/-- Nothing is taken off the line. -/
def Flush (line : Bytes) : Prop := line.head? ≠ some ' '.toUInt8

section plain

variable {line acc : Bytes} {lines : List Bytes}

theorem valueOf_of_flush (hplain : Plain line) (hflush : Flush line) : valueOf line = line := by
  rw [valueOf, stripEnd_of_notMem hplain.noReturn hplain.noFeed]
  cases line with
  | nil => rfl
  | cons c rest =>
    have hc : c ≠ ' '.toUInt8 := fun h => hflush (congrArg some h)
    exact List.dropWhile_cons_of_neg (by simpa using hc)

theorem length_valueOf_lt (hspace : ¬ Flush line) : (valueOf line).length < line.length := by
  obtain ⟨rest, rfl⟩ := List.head?_eq_some_iff.mp (not_not.mp hspace)
  have hstrip : stripEnd (' '.toUInt8 :: rest) = ' '.toUInt8 :: stripEnd rest :=
    stripEnd_append (by decide) [] rest
  have hdrop : valueOf (' '.toUInt8 :: rest) =
      (stripEnd rest).dropWhile fun c => c = ' '.toUInt8 := by
    rw [valueOf, hstrip, List.dropWhile_cons_of_pos (by simp)]
  have hrest := (List.dropWhile_suffix (l := stripEnd rest)
    fun c => decide (c = ' '.toUInt8)).length_le
  have hle := (stripEnd_isPrefix rest).length_le
  rw [hdrop, List.length_cons]
  omega

theorem length_valueOf_le (line : Bytes) : (valueOf line).length ≤ line.length :=
  (valueOf_isInfix line).length_le

/-- The lines and their ends. -/
def textSize (lines : List Bytes) : Nat := (joinLines lines).length

@[simp] theorem textSize_cons (line : Bytes) (lines : List Bytes) :
    textSize (line :: lines) = line.length + 1 + textSize lines := by
  rw [textSize, joinLines, List.flatMap_cons, List.length_append, List.length_append,
    List.length_singleton]
  rfl

theorem textSize_splitOn (data : Bytes) :
    textSize (data.splitOn '\n'.toUInt8) = data.length + 1 := by
  rw [textSize, joinLines, flatMap_splitOn, List.length_append, List.length_singleton]

/-- A plain line that is not cut is added as it is. -/
theorem addData_of_flush (hplain : Plain line) (hflush : Flush line) :
    addData acc line = (if acc = [] then [] else acc ++ str "\n") ++ line := by
  rw [addData, valueOf_of_flush hplain hflush, if_neg hplain.notDone]

theorem length_addData_le (hne : acc ≠ []) (line : Bytes) :
    (addData acc line).length ≤ acc.length + 1 + (valueOf line).length := by
  have hend : (str "\n").length = 1 := by decide
  unfold addData
  split
  · omega
  · rw [List.length_append, List.length_append, hend]

theorem addData_ne_nil (hne : acc ≠ []) (line : Bytes) : addData acc line ≠ [] := by
  unfold addData
  split
  · exact hne
  · simp [hne]

/-- The first line is what is read of it. -/
theorem length_addData_nil (line : Bytes) : (addData [] line).length ≤ (valueOf line).length := by
  unfold addData
  split
  · exact Nat.zero_le _
  · simp

/-- Behind a text, the lines take at most their size, and less if a space is taken off one. -/
theorem length_foldl_addData (lines : List Bytes) : ∀ {acc : Bytes}, acc ≠ [] →
    (lines.foldl addData acc).length ≤ acc.length + textSize lines ∧
      ((∃ line ∈ lines, ¬ Flush line) →
        (lines.foldl addData acc).length < acc.length + textSize lines) := by
  induction lines with
  | nil =>
    intro acc _
    simp [textSize]
  | cons line lines ih =>
    intro acc hne
    have hadd := length_addData_le hne line
    have hvalue := length_valueOf_le line
    obtain ⟨hle, hlt⟩ := ih (addData_ne_nil hne line)
    rw [List.foldl_cons, textSize_cons]
    refine ⟨by omega, ?_⟩
    rintro ⟨bad, hmem, hbad⟩
    rcases List.mem_cons.mp hmem with rfl | hmem
    · have hshort := length_valueOf_lt hbad
      omega
    · have hrest := hlt ⟨bad, hmem, hbad⟩
      omega

/-- From the start there is no end in front of the first line. -/
theorem length_foldl_addData_nil (lines : List Bytes) (hne : lines ≠ []) :
    (lines.foldl addData []).length + 1 ≤ textSize lines := by
  induction lines with
  | nil => exact absurd rfl hne
  | cons line lines ih =>
    have hfirst := length_addData_nil line
    have hvalue := length_valueOf_le line
    rw [List.foldl_cons, textSize_cons]
    by_cases hempty : addData [] line = []
    · -- the next line is then the first one again
      rw [hempty]
      cases lines with
      | nil =>
        simp only [List.foldl_nil, List.length_nil]
        omega
      | cons next lines =>
        have hrest := ih (List.cons_ne_nil _ _)
        omega
    · have hrest := (length_foldl_addData lines hempty).1
      omega

/-- Plain lines that nothing is taken off follow each other. -/
theorem foldl_addData_flush (lines : List Bytes) : ∀ {acc : Bytes}, acc ≠ [] →
    (∀ line ∈ lines, Plain line ∧ Flush line) →
      lines.foldl addData acc = acc ++ lines.flatMap fun line => '\n'.toUInt8 :: line := by
  induction lines with
  | nil =>
    intro acc _ _
    simp
  | cons line lines ih =>
    intro acc hne hlines
    obtain ⟨hplain, hflush⟩ := hlines line List.mem_cons_self
    rw [List.foldl_cons, ih (addData_ne_nil hne line)
      (fun l hl => hlines l (List.mem_cons_of_mem _ hl)), addData_of_flush hplain hflush,
      if_neg hne, str_newline]
    simp

end plain

/-! ### Main result on data -/

section roundTrip

variable {data : Bytes}

/-- What is read is never longer than the data. -/
theorem length_readData_le (data : Bytes) : (readData data).length ≤ data.length := by
  have hlength := length_foldl_addData_nil (data.splitOn '\n'.toUInt8) (List.splitOnP_ne_nil _ _)
  rw [textSize_splitOn] at hlength
  exact Nat.le_of_succ_le_succ hlength

/-- The first line of data that does not start with a line feed has a text. -/
theorem head?_eq_of_splitOn {first : Bytes} {more : List Bytes}
    (hsplit : data.splitOn '\n'.toUInt8 = first :: more) (hne : first ≠ []) :
    data.head? = first.head? ∧ data.head? ≠ some '\n'.toUInt8 := by
  obtain ⟨c, rest, rfl⟩ := List.exists_cons_of_ne_nil hne
  have hfirst : '\n'.toUInt8 ∉ c :: rest :=
    notMem_of_mem_splitOn (by rw [hsplit]; exact List.mem_cons_self)
  rw [eq_of_splitOn hsplit]
  exact ⟨rfl, fun h => hfirst (Option.some.inj h ▸ List.mem_cons_self)⟩

theorem readData_of_flush (hne : data ≠ []) (hhead : data.head? ≠ some '\n'.toUInt8)
    (hlines : ∀ line ∈ data.splitOn '\n'.toUInt8, Plain line ∧ Flush line) :
    readData data = data := by
  obtain ⟨first, more, hsplit⟩ := exists_splitOn_eq '\n'.toUInt8 data
  have hdata := eq_of_splitOn hsplit
  rw [hsplit] at hlines
  -- with an empty first line the data would be empty or start with a line feed
  have hfirst : first ≠ [] := by
    rintro rfl
    cases more with
    | nil => exact hne hdata
    | cons next more =>
      rw [hdata] at hhead
      exact hhead rfl
  obtain ⟨hplain, hflush⟩ := hlines first List.mem_cons_self
  have hadd : addData [] first = first := by
    rw [addData_of_flush hplain hflush]
    rfl
  rw [readData, hsplit, List.foldl_cons, hadd, foldl_addData_flush more hfirst
    fun line hline => hlines line (List.mem_cons_of_mem _ hline)]
  exact hdata.symm

/-- If what is read is as long as the data, nothing was taken off. -/
theorem flush_of_length (hne : data ≠ []) (hlength : data.length ≤ (readData data).length) :
    (∀ line ∈ data.splitOn '\n'.toUInt8, Flush line) ∧ data.head? ≠ some '\n'.toUInt8 := by
  obtain ⟨first, more, hsplit⟩ := exists_splitOn_eq '\n'.toUInt8 data
  have hsize := textSize_splitOn data
  have hpos := List.length_pos_iff.mpr hne
  have hfirst := length_addData_nil first
  have hvalue := length_valueOf_le first
  rw [readData, hsplit, List.foldl_cons] at hlength
  rw [hsplit, textSize_cons] at hsize
  by_cases hempty : addData [] first = []
  · -- then the end of the first line is lost
    rw [hempty] at hlength
    cases more with
    | nil =>
      simp only [List.foldl_nil, List.length_nil] at hlength
      omega
    | cons next more =>
      have hrest := length_foldl_addData_nil (next :: more) (List.cons_ne_nil _ _)
      omega
  · obtain ⟨hle, hlt⟩ := length_foldl_addData more hempty
    have hfirst' : Flush first := by
      by_contra hspace
      have hshort := length_valueOf_lt hspace
      omega
    have hmore : ∀ line ∈ more, Flush line := by
      intro line hline
      by_contra hspace
      have hshort := hlt ⟨line, hline, hspace⟩
      omega
    have hfirst_ne : first ≠ [] := by
      have hpos' := List.length_pos_iff.mpr hempty
      exact List.length_pos_iff.mp (by omega)
    refine ⟨?_, (head?_eq_of_splitOn hsplit hfirst_ne).2⟩
    rw [hsplit]
    exact List.forall_mem_cons.mpr ⟨hfirst', hmore⟩

theorem feed_data_iff (hne : data ≠ []) :
    (∃ message, (SseDecoder.feed {} (encodeSse { data := some data })).2 = [message] ∧
        message.data = some data) ↔ dataText { data := readData data } = data := by
  rw [feed_data, nonEmpty]
  split
  · next hempty =>
    rw [hempty]
    exact iff_of_false (by simp) hne.symm
  · simp

/-- **Data comes back** exactly if no line of it starts with a space, and it neither starts nor
    ends with a line feed. -/
theorem data_round_trips_iff (hne : data ≠ []) (hreturn : '\r'.toUInt8 ∉ data)
    (hdone : str "[DONE]" ∉ data.splitOn '\n'.toUInt8) :
    (∃ message, (SseDecoder.feed {} (encodeSse { data := some data })).2 = [message] ∧
        message.data = some data) ↔
      (∀ line ∈ data.splitOn '\n'.toUInt8, line.head? ≠ some ' '.toUInt8) ∧
        data.head? ≠ some '\n'.toUInt8 ∧ data.getLast? ≠ some '\n'.toUInt8 := by
  have hdataText : dataText { data := readData data } =
      if (readData data).getLast? = some '\n'.toUInt8 then (readData data).dropLast
      else readData data := rfl
  rw [feed_data_iff hne, hdataText]
  constructor
  · intro htext
    have hle := length_readData_le data
    split at htext
    · -- a line feed was taken off the end
      have hshort := congrArg List.length htext
      have hpos := List.length_pos_iff.mpr hne
      rw [List.length_dropLast] at hshort
      omega
    · next hlast =>
      obtain ⟨hflush, hhead⟩ := flush_of_length hne (by rw [htext])
      rw [htext] at hlast
      exact ⟨hflush, hhead, hlast⟩
  · rintro ⟨hflush, hhead, hlast⟩
    have hlines : ∀ line ∈ data.splitOn '\n'.toUInt8, Plain line ∧ Flush line := by
      intro line hline
      refine ⟨⟨fun h => hreturn (mem_of_mem_splitOn hline h), notMem_of_mem_splitOn hline, ?_⟩,
        hflush line hline⟩
      rintro rfl
      exact hdone hline
    rw [readData_of_flush hne hhead hlines, if_neg hlast]

/-- Data with an empty line. -/
theorem paragraphs_round_trip :
    ∃ message, (SseDecoder.feed {} (encodeSse { data := some (str "a b\n\nc") })).2 = [message] ∧
      message.data = some (str "a b\n\nc") :=
  (data_round_trips_iff (by decide) (by decide) (by decide)).mpr (by decide)

/-- Indented data loses the indentation, data that ends with a line feed loses it, and of a line
    feed alone there is no message at all. -/
theorem data_changed :
    (SseDecoder.feed {} (encodeSse { data := some (str "  a") })).2 = [{ data := some (str "a") }] ∧
      (SseDecoder.feed {} (encodeSse { data := some (str "a\n") })).2 =
        [{ data := some (str "a") }] ∧
      (SseDecoder.feed {} (encodeSse { data := some (str "\n") })).2 = [] := by
  decide

end roundTrip

/-! ## Comments, ids and events -/

/-- What was got is a part of the original. -/
def ComesFrom (got original : Option Bytes) : Prop :=
  ∀ text ∈ got, ∃ whole ∈ original, text <:+: whole

/-- Each field of the first message is a part of the same field of the second. -/
def SseMessage.PartOf (r m : SseMessage) : Prop :=
  ComesFrom r.data m.data ∧ ComesFrom r.id m.id ∧ ComesFrom r.event m.event ∧
    ∀ comment ∈ r.comments.getD [], ∃ whole ∈ m.comments.getD [], comment <:+: whole

theorem comesFrom_nonEmpty {text : Bytes} {original : Option Bytes} :
    ComesFrom (nonEmpty text) original ↔ text <:+: original.getD [] := by
  unfold nonEmpty ComesFrom
  split
  · next hempty => simp [hempty]
  · next hne => cases original <;> simp [hne]

/-- The fields are said by the message. -/
structure SseMessage.Says (m : SseMessage) (f : SseFields) : Prop where
  data     : f.dataText <:+: m.data.getD []
  id       : f.id <:+: m.id.getD []
  event    : f.event <:+: m.event.getD []
  comments : ∀ comment ∈ f.comments, ∃ whole ∈ m.comments.getD [], comment <:+: whole

theorem partOf_message {m : SseMessage} {f : SseFields} : f.message.PartOf m ↔ m.Says f := by
  have hcomments : f.message.comments.getD [] = f.comments := by
    unfold message
    split
    · next hempty => exact hempty.symm
    · rfl
  unfold SseMessage.PartOf
  rw [hcomments]
  constructor
  · rintro ⟨hdata, hid, hevent, hall⟩
    exact ⟨comesFrom_nonEmpty.mp hdata, comesFrom_nonEmpty.mp hid, comesFrom_nonEmpty.mp hevent,
      hall⟩
  · rintro ⟨hdata, hid, hevent, hall⟩
    exact ⟨comesFrom_nonEmpty.mpr hdata, comesFrom_nonEmpty.mpr hid, comesFrom_nonEmpty.mpr hevent,
      hall⟩

/-! ### Texts without line feeds -/

theorem dataText_isPrefix (f : SseFields) : f.dataText <+: f.data := by
  unfold dataText
  split
  · exact List.dropLast_prefix _
  · exact List.prefix_rfl

/-- The space in front is taken off as well. -/
theorem trim_isInfix (text : Bytes) : trim (' '.toUInt8 :: text) <:+: text := by
  have hfront : trim (' '.toUInt8 :: text) <+: text.dropWhile _ := List.rdropWhile_prefix _ _
  exact hfront.isInfix.trans (List.dropWhile_suffix _).isInfix

/-- The texts of a message, with the names that they are written behind. -/
def SseMessage.texts (m : SseMessage) : List (Bytes × Bytes) :=
  (m.comments.getD []).map (Prod.mk []) ++ m.id.toList.map (Prod.mk (str "id")) ++
    m.event.toList.map (Prod.mk (str "event")) ++ m.data.toList.map (Prod.mk (str "data"))

theorem body_of_notMem {m : SseMessage} (h : ∀ text ∈ m.texts, '\n'.toUInt8 ∉ text.2) :
    m.body = m.texts.map written := by
  have hlines : ∀ {name : Bytes} {lines : Bytes → List Bytes} {values : List Bytes},
      (∀ v ∈ values, lines v = [written (name, v)]) →
        values.flatMap lines = (values.map (Prod.mk name)).map written := by
    intro name lines values hvalues
    rw [List.map_map, List.map_eq_flatMap]
    exact List.flatMap_congr hvalues
  have hvalue : ∀ {name v : Bytes}, '\n'.toUInt8 ∉ v → valueLines name v = [name ++ v] := by
    intro name v hv
    rw [valueLines, splitOn_eq_singleton hv]
    rfl
  simp only [SseMessage.texts, List.forall_mem_append, List.forall_mem_map] at h
  obtain ⟨⟨⟨hcomments, hid⟩, hevent⟩, hdata⟩ := h
  simp only [SseMessage.body, SseMessage.texts, List.map_append]
  refine congrArg₂ _ (congrArg₂ _ (congrArg₂ _ (hlines fun v hv => hvalue (hcomments v hv))
    (hlines fun v hv => hvalue (hid v hv))) (hlines fun v hv => hvalue (hevent v hv)))
    (hlines fun v hv => ?_)
  rw [dataLines, splitOn_eq_singleton (hdata v hv)]
  rfl

theorem says_of_notMem {m : SseMessage} (h : ∀ text ∈ m.texts, '\n'.toUInt8 ∉ text.2) :
    segments m.body = [m.body] ∧ m.Says (fieldsOf m.body) := by
  have hnames : ∀ text ∈ m.texts, ':'.toUInt8 ∉ text.1 := by
    simp only [SseMessage.texts, List.forall_mem_append, List.forall_mem_map]
    simp +decide
  obtain ⟨hdata, hid, hevent⟩ :
      m.body.filterMap (fieldValue (str "data")) = m.data.toList.map valueOf ∧
      m.body.filterMap (fieldValue (str "id")) = m.id.toList.map valueOf ∧
      m.body.filterMap (fieldValue (str "event")) = m.event.toList.map valueOf := by
    rw [body_of_notMem h, values_written hnames (by decide), values_written hnames (by decide),
      values_written hnames (by decide)]
    simp +decide [SseMessage.texts, List.filterMap_append, List.filterMap_map]
  refine ⟨?_, (dataText_isPrefix _).isInfix.trans ?_, ?_, ?_, fun comment hcomment => ?_⟩
  · rw [body_of_notMem h]
    exact segments_written hnames
  · rw [fieldsOf, hdata]
    cases m.data with
    | none => exact List.nil_infix
    | some v =>
      by_cases hdone : valueOf v = kSseDoneSentinel <;> simp [joinData, hdone, valueOf_isInfix]
  · rw [fieldsOf, hid]
    cases m.id with
    | none => exact List.nil_infix
    | some v => by_cases hnul : 0 ∈ valueOf v <;> simp [hnul, valueOf_isInfix]
  · rw [fieldsOf, hevent]
    cases m.event with
    | none => exact List.nil_infix
    | some v => exact valueOf_isInfix v
  · rw [fieldsOf, body_of_notMem h, comments_written hnames] at hcomment
    obtain ⟨⟨name, text⟩, hmem, htext⟩ := List.mem_filterMap.mp hcomment
    obtain ⟨rfl, heq⟩ := Option.ite_none_right_eq_some.mp htext
    cases heq
    have hwhole : text ∈ m.comments.getD [] := by
      simpa +decide [SseMessage.texts] using hmem
    exact ⟨text, hwhole, (trim_isInfix _).trans (stripEnd_isPrefix text).isInfix⟩

/-- An error item, as the frontend writes it. -/
def errorMessage (what : Bytes) : SseMessage where
  event    := some (str "error")
  comments := some [what]

/-- A comment in a comment, a blank line at the end and an id in an id do no harm. -/
example : ∀ m ∈ [errorMessage (str "x\n: y"), { comments := some [str "x\n"] },
    { id := some (str "1\nid: 2") }],
    (SseDecoder.feed {} (encodeSse m)).2.length ≤ 1 ∧
      ∀ r ∈ (SseDecoder.feed {} (encodeSse m)).2, r.PartOf m := by
  unfold SseMessage.PartOf ComesFrom
  decide

end DynamoCpp.Llm
