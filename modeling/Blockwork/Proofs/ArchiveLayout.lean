/-
An archive is read back from its bytes.

- `Bytes.number_ofNumber`: a number that has room is read back from its bytes.
- `numberAt?_fields`: a number is found in a row of fields where the widths before it add up to.
- `Line.read?_line`, `data?_record`: a line of the directory says what the entry is, and leads to its data.
- `entries?_directory`: line by line, the directory gives all entries. The induction is on the entries that are left,
  with the places of the next line and of the next record in step.
- `Bytes.places_of_occurs`: the places of a mark in front of one of them, and those behind it. So the first line is the
  first mark of a line from the place on that the end record names, and no mark behind the end record can be taken for
  one.
- `Archive.Fits.ofBytes?_toBytes`: an archive that fits into the narrow form of the format is read back entry by entry.
- `write?_files`: whatever is written is read back, file by file.
-/
import Blockwork.Archive.Read
import Blockwork.Proofs.Coding
import Blockwork.Proofs.Deflation

namespace Blockwork

namespace Bytes

/-! ## Numbers and parts -/

@[simp]
theorem length_ofNumber (width n : Nat) : (ofNumber width n).length = width := by
  induction width generalizing n with
  | zero => rfl
  | succ width ih => simp [ofNumber, ih]

theorem number_ofNumber {width n : Nat} (h : n < 256 ^ width) : number (ofNumber width n) = n := by
  induction width generalizing n with
  | zero =>
    have hzero : n = 0 := by simpa using h
    rw [hzero]
    rfl
  | succ width ih =>
    have hhigh : n / 256 < 256 ^ width := by
      apply Nat.div_lt_of_lt_mul
      rw [Nat.mul_comm, ← Nat.pow_succ]
      exact h
    rw [ofNumber, number, ih hhigh, UInt8.toNat_ofNat']
    omega

theorem drop_behind {bytes part rest : Bytes} {place : Nat} (h : bytes.drop place = part ++ rest) (length : Nat)
    (hl : part.length = length) : bytes.drop (place + length) = rest := by
  rw [← List.drop_drop, h, ← hl, List.drop_left]

theorem slice?_eq {bytes part rest : Bytes} {place length : Nat} (h : bytes.drop place = part ++ rest)
    (hl : part.length = length) : bytes.slice? place length = some part := by
  rw [slice?, h, ← hl, List.take_left]
  simp

theorem numberAt?_eq {bytes rest : Bytes} {place width n : Nat} (h : bytes.drop place = ofNumber width n ++ rest)
    (hn : n < 256 ^ width) : bytes.numberAt? place width = some n := by
  have htake : (ofNumber width n ++ rest).take width = ofNumber width n :=
    List.take_left' (length_ofNumber width n)
  rw [numberAt?, h, htake]
  simp [number_ofNumber hn]

theorem numberAt?_beyond {bytes : Bytes} {place width : Nat} (h : bytes.length < place + width) (hw : 0 < width) :
    bytes.numberAt? place width = none := by
  rw [numberAt?, if_neg]
  rw [List.length_take, List.length_drop]
  omega

/-! ## Places -/

theorem le_of_mem_placesFrom {needle bytes : Bytes} {start place : Nat} (h : place ∈ placesFrom needle start bytes) :
    start ≤ place := by
  induction bytes generalizing start with
  | nil => cases h
  | cons b bytes ih =>
    rw [placesFrom] at h
    split_ifs at h
    · rcases List.mem_cons.1 h with rfl | h
      · exact le_rfl
      · exact Nat.le_of_succ_le (ih h)
    · exact Nat.le_of_succ_le (ih h)

/-- the places of a row: those in front of a part, and those from its start on -/
theorem placesFrom_append (needle front part : Bytes) (start : Nat) :
    ∃ before, placesFrom needle start (front ++ part) = before ++ placesFrom needle (start + front.length) part ∧
      ∀ place ∈ before, place < start + front.length := by
  induction front generalizing start with
  | nil => exact ⟨[], rfl, fun _ h => nomatch h⟩
  | cons b front ih =>
    obtain ⟨before, hsplit, hbefore⟩ := ih (start + 1)
    have hlength : start + 1 + front.length = start + (b :: front).length := by
      rw [List.length_cons]
      omega
    rw [hlength] at hsplit hbefore
    rw [List.cons_append, placesFrom, hsplit]
    split_ifs
    · refine ⟨start :: before, rfl, ?_⟩
      intro place hplace
      rcases List.mem_cons.1 hplace with rfl | hplace
      · rw [List.length_cons]
        omega
      · exact hbefore place hplace
    · exact ⟨before, rfl, hbefore⟩

/-- a row that occurs at a place, among all its places -/
theorem places_of_occurs (front : Bytes) {needle : Bytes} (hne : needle ≠ []) (rest : Bytes) :
    ∃ before behind, needle.places (front ++ (needle ++ rest)) = before ++ front.length :: behind ∧
      (∀ place ∈ before, place < front.length) ∧ ∀ place ∈ behind, front.length < place := by
  obtain ⟨before, hsplit, hbefore⟩ := placesFrom_append needle front (needle ++ rest) 0
  rw [Nat.zero_add] at hsplit hbefore
  cases needle with
  | nil => exact absurd rfl hne
  | cons b needle =>
    have hprefix : (b :: needle).isPrefixOf (b :: needle ++ rest) = true :=
      List.isPrefixOf_iff_prefix.2 (List.prefix_append _ _)
    rw [List.cons_append, placesFrom, ← List.cons_append, if_pos hprefix] at hsplit
    refine ⟨before, _, hsplit, hbefore, ?_⟩
    intro place hplace
    exact le_of_mem_placesFrom hplace

/-! ## Names -/

/-- a text of ASCII characters is read back from its bytes, whatever the reader does with other bytes -/
theorem lossyText_ofText {text : String} (h : ∀ c ∈ text.toList, c.toNat < 128) : lossyText (ofText text) = text := by
  have hchars : ∀ cs : List Char, (∀ c ∈ cs, c.toNat < 128) →
      lossyFrom none (cs.flatMap String.utf8EncodeChar) = cs := by
    intro cs hcs
    induction cs with
    | nil => rfl
    | cons c cs ih =>
      obtain ⟨hc, hrest⟩ := List.forall_mem_cons.1 hcs
      have hbyte : (UInt8.ofNat c.toNat).toNat = c.toNat := by
        rw [UInt8.toNat_ofNat']
        omega
      have hlow : UInt8.ofNat c.toNat < 0x80 := by
        rw [UInt8.lt_iff_toNat_lt, hbyte]
        exact hc
      rw [List.flatMap_cons, encodeChar_ascii hc, List.cons_append, List.nil_append]
      simp only [lossyFrom, nextChar, startChar, hlow, if_true, hbyte, Char.ofNat_toNat, ih hrest, List.cons_append,
        List.nil_append]
  have hbytes : ofText text = text.toList.flatMap String.utf8EncodeChar := by
    rw [← ofText_ofList, String.ofList_toList]
  rw [lossyText, hbytes, hchars _ h, String.ofList_toList]

end Bytes

namespace Archive

/-! ## Fields -/

/-- the field that starts at a place in a row of fields -/
def fieldAt? : List (Nat × Nat) → Nat → Option (Nat × Nat)
  | [], _ => none
  | field :: rest, place =>
    if place = 0 then some field else if field.1 ≤ place then fieldAt? rest (place - field.1) else none

/-- **A number is read from its field**, wherever the row stands. -/
theorem numberAt?_fields {bytes rest : Bytes} {row : List (Nat × Nat)} {start width n : Nat}
    (h : bytes.drop start = fields row ++ rest) (place : Nat) (hf : fieldAt? row place = some (width, n))
    (hn : n < 256 ^ width) : bytes.numberAt? (start + place) width = some n := by
  induction row generalizing start place with
  | nil => cases hf
  | cons field row ih =>
    have hrow : bytes.drop start = Bytes.ofNumber field.1 field.2 ++ (fields row ++ rest) := by
      rw [h, fields, List.flatMap_cons, List.append_assoc]
      rfl
    rw [fieldAt?] at hf
    split_ifs at hf with hzero hbehind
    · cases hf
      rw [hzero]
      exact Bytes.numberAt?_eq hrow hn
    · have hlater := ih (Bytes.drop_behind hrow _ (Bytes.length_ofNumber _ _)) _ hf
      have hplace : start + field.1 + (place - field.1) = start + place := by omega
      rwa [hplace] at hlater

theorem length_fields (row : List (Nat × Nat)) : (fields row).length = (row.map Prod.fst).sum := by
  induction row with
  | nil => rfl
  | cons field row ih => simp [fields]

theorem Entry.length_common (entry : Entry) : entry.common.length = 26 := by
  rw [common, length_fields]
  rfl

/-! ## Entries -/

/-- an entry whose name and size have room and are given back, and whose method has a number of its own -/
structure Entry.Fits (entry : Entry) : Prop where
  name : Bytes.lossyText (Bytes.ofText entry.name) = entry.name
  nameLength : (Bytes.ofText entry.name).length < 256 ^ 2
  size : entry.size < 256 ^ 4
  method : entry.method = .stored ∨ entry.method = .deflated

theorem Entry.flags_lt (entry : Entry) : entry.flags < 256 ^ 2 := by
  rw [flags]
  split_ifs <;> decide

theorem Entry.testBit_flags (entry : Entry) :
    entry.flags.testBit 11 = true ∧ entry.flags.testBit 0 = entry.encrypted := by
  rw [flags]
  cases entry.encrypted <;> decide

theorem Entry.sum_lt (entry : Entry) : entry.sum.toNat < 256 ^ 4 := entry.sum.toNat_lt

theorem Entry.Fits.code {entry : Entry} (h : entry.Fits) :
    entry.method.code < 256 ^ 2 ∧ entry.method.code ≠ 99 ∧ Method.ofCode entry.method.code = entry.method := by
  rcases h.method with hm | hm <;> rw [hm] <;> decide

/-- what the directory says of an entry at a place -/
def Entry.toLine (entry : Entry) (place : Nat) : Line :=
  { rawName := Bytes.ofText entry.name, name := entry.name, comment := "", method := entry.method.code,
    encrypted := entry.encrypted, guarded := false, sum := entry.sum.toNat, packedSize := entry.data.length,
    size := entry.size, offset := place }

theorem entry_toLine {e : Entry} (h : e.Fits) (place : Nat) : entry (e.toLine place) e.data = e := by
  simp [entry, Entry.toLine, h.code.2.2]

theorem Entry.length_line (entry : Entry) (place : Nat) :
    (entry.line place).length = 46 + (Bytes.ofText entry.name).length := by
  simp [line, length_common, length_fields, directoryMark]
  omega

theorem Entry.length_record (entry : Entry) :
    entry.record.length = 30 + (Bytes.ofText entry.name).length + entry.data.length := by
  simp [record, length_common, localMark]
  omega

/-- **A line of the directory says what the entry is.** -/
theorem Line.read?_line {e : Entry} (h : e.Fits) {bytes rest : Bytes} {start place : Nat} (hp : place < 256 ^ 4)
    (hd : e.data.length < 256 ^ 4) (hb : bytes.drop start = e.line place ++ rest) :
    Line.read? directoryMark bytes start = some (e.toLine place, start + (e.line place).length) := by
  have hline : bytes.drop start = (directoryMark ++ fields [(2, 20)]) ++ (e.common ++
      (fields [(2, 0), (2, 0), (2, 0), (4, 0), (4, place)] ++ (Bytes.ofText e.name ++ rest))) := by
    rw [hb, Entry.line]
    simp only [List.append_assoc]
  have hmark : bytes.slice? start 4 = some directoryMark := by
    rw [List.append_assoc] at hline
    exact Bytes.slice?_eq hline rfl
  have hcommon : bytes.drop (start + 6) = _ := Bytes.drop_behind hline 6 rfl
  have hbehind : bytes.drop (start + 32) = _ := Bytes.drop_behind hcommon 26 e.length_common
  have hname : bytes.drop (start + 46) = _ := Bytes.drop_behind hbehind 14 (length_fields _)
  have hflags : bytes.numberAt? (start + 8) 2 = some e.flags := numberAt?_fields hcommon 2 rfl e.flags_lt
  have hmethod : bytes.numberAt? (start + 10) 2 = some e.method.code := numberAt?_fields hcommon 4 rfl h.code.1
  have hsum : bytes.numberAt? (start + 16) 4 = some e.sum.toNat := numberAt?_fields hcommon 10 rfl e.sum_lt
  have hpacked : bytes.numberAt? (start + 20) 4 = some e.data.length := numberAt?_fields hcommon 14 rfl hd
  have hsize : bytes.numberAt? (start + 24) 4 = some e.size := numberAt?_fields hcommon 18 rfl h.size
  have hnameLength : bytes.numberAt? (start + 28) 2 = some (Bytes.ofText e.name).length :=
    numberAt?_fields hcommon 22 rfl h.nameLength
  have hextra : bytes.numberAt? (start + 30) 2 = some 0 := numberAt?_fields hcommon 24 rfl (by decide)
  have hcomment : bytes.numberAt? (start + 32) 2 = some 0 := numberAt?_fields hbehind 0 rfl (by decide)
  have hoffset : bytes.numberAt? (start + 42) 4 = some place := numberAt?_fields hbehind 10 rfl hp
  have hrawName : bytes.slice? (start + 46) (Bytes.ofText e.name).length = some (Bytes.ofText e.name) :=
    Bytes.slice?_eq hname rfl
  have hnone : ∀ p, bytes.slice? p 0 = some [] := fun p => by simp [Bytes.slice?]
  have hsound : (e.toLine place).isSound := by
    simp [Line.isSound, Entry.toLine, h.code.2.1]
  have hlength : start + 46 + (Bytes.ofText e.name).length = start + (e.line place).length := by
    rw [Entry.length_line]
    omega
  simp only [Line.read?, hmark, hflags, hmethod, hsum, hpacked, hsize, hnameLength, hextra, hcomment, hoffset,
    hrawName, hnone, bind, Option.bind, textOf, e.testBit_flags.1, e.testBit_flags.2, if_true, h.name, List.length_nil,
    Line.fields?, Nat.add_zero, hlength]
  exact if_pos ⟨trivial, hsound⟩

/-- **The header of an entry leads to its data**, in front of the directory. -/
theorem data?_record {e : Entry} (h : e.Fits) {bytes rest : Bytes} {place directoryPlace : Nat}
    (hb : bytes.drop place = e.record ++ rest) (hd : place + e.record.length ≤ directoryPlace) :
    data? bytes place directoryPlace e.data.length = some e.data := by
  rw [Entry.length_record] at hd
  have hrecord : bytes.drop place = localMark ++ (e.common ++ (Bytes.ofText e.name ++ (e.data ++ rest))) := by
    rw [hb, Entry.record]
    simp only [List.append_assoc]
  have hmark : bytes.slice? place 4 = some localMark := Bytes.slice?_eq hrecord rfl
  have hcommon : bytes.drop (place + 4) = _ := Bytes.drop_behind hrecord 4 rfl
  have hname : bytes.drop (place + 30) = _ := Bytes.drop_behind hcommon 26 e.length_common
  have hdata := Bytes.drop_behind hname _ rfl
  have hnameLength : bytes.numberAt? (place + 26) 2 = some (Bytes.ofText e.name).length :=
    numberAt?_fields hcommon 22 rfl h.nameLength
  have hextra : bytes.numberAt? (place + 28) 2 = some 0 := numberAt?_fields hcommon 24 rfl (by decide)
  simp only [data?, hmark, hnameLength, hextra, bind, Option.bind, Nat.add_zero, hdata, List.take_left]
  exact if_pos ⟨trivial, by omega, by omega⟩

/-- **The directory gives all entries**, from a line and a record on. -/
theorem entries?_directory {bytes lineRest recordRest : Bytes} {dir : Directory} (hshift : dir.shift = 0)
    (hplace : dir.place < 256 ^ 4) {entries : List Entry} (h : ∀ e ∈ entries, e.Fits) {line record : Nat}
    (hl : bytes.drop line = directory record entries ++ lineRest)
    (hr : bytes.drop record = entries.flatMap Entry.record ++ recordRest)
    (hd : record + (entries.flatMap Entry.record).length ≤ dir.place) :
    entries? bytes dir entries.length line = some entries := by
  induction entries generalizing line record with
  | nil => rfl
  | cons e entries ih =>
    obtain ⟨he, hrest⟩ := List.forall_mem_cons.1 h
    rw [directory, List.append_assoc] at hl
    rw [List.flatMap_cons, List.append_assoc] at hr
    rw [List.flatMap_cons, List.length_append, ← Nat.add_assoc] at hd
    have hlength := e.length_record
    have hline := Line.read?_line he (by omega) (by omega) hl
    have hdata := data?_record he hr (Nat.le_of_add_right_le hd)
    have hothers := ih hrest (Bytes.drop_behind hl _ rfl) (Bytes.drop_behind hr _ rfl) hd
    have hshifted : data? bytes (dir.shift + (e.toLine record).offset) dir.place (e.toLine record).packedSize =
        some e.data := by
      rw [hshift, Nat.zero_add]
      exact hdata
    simp only [List.length_cons, entries?, hline, hshifted, hothers, bind, Option.bind, entry_toLine he]

/-! ## The end record -/

def records (archive : Archive) : Bytes := archive.entries.flatMap Entry.record

def lines (archive : Archive) : Bytes := directory 0 archive.entries

def endRow (archive : Archive) : List (Nat × Nat) :=
  [(2, 0), (2, 0), (2, archive.entries.length), (2, archive.entries.length), (4, archive.lines.length),
    (4, archive.records.length), (2, 0)]

theorem toBytes_eq (archive : Archive) :
    archive.toBytes = archive.records ++ (archive.lines ++ (endMark ++ fields archive.endRow)) := by
  simp only [toBytes, List.append_assoc]
  rfl

theorem length_toBytes (archive : Archive) :
    archive.toBytes.length = archive.records.length + archive.lines.length + 22 := by
  rw [toBytes_eq]
  simp only [List.length_append, length_fields]
  change _ + (_ + (4 + 18)) = _
  omega

/-- an archive that the narrow form of the format has room for -/
structure Fits (archive : Archive) : Prop where
  entries : ∀ e ∈ archive.entries, e.Fits
  count : archive.entries.length < 0xFFFF
  size : archive.records.length < wideNumber

theorem Fits.endRecord {archive : Archive} (h : archive.Fits) :
    EndRecord.read? archive.toBytes (archive.records.length + archive.lines.length) =
      some ⟨0, 0, archive.entries.length, archive.entries.length, archive.records.length⟩ := by
  have hcount : archive.entries.length < 256 ^ 2 := Nat.lt_trans h.count (by decide)
  have hsize : archive.records.length < 256 ^ 4 := Nat.lt_trans h.size (by decide)
  have hend : archive.toBytes.drop (archive.records.length + archive.lines.length) =
      endMark ++ (fields archive.endRow ++ []) := by
    rw [toBytes_eq, ← List.append_assoc, ← List.length_append, List.drop_left, List.append_nil]
  generalize archive.records.length + archive.lines.length = place at hend ⊢
  have hfields : archive.toBytes.drop (place + 4) = _ := Bytes.drop_behind hend 4 rfl
  have hdisk : archive.toBytes.numberAt? (place + 4) 2 = some 0 := numberAt?_fields hfields 0 rfl (by decide)
  have hdirectoryDisk : archive.toBytes.numberAt? (place + 6) 2 = some 0 := numberAt?_fields hfields 2 rfl (by decide)
  have hlines : archive.toBytes.numberAt? (place + 8) 2 = some _ := numberAt?_fields hfields 4 rfl hcount
  have htotal : archive.toBytes.numberAt? (place + 10) 2 = some _ := numberAt?_fields hfields 6 rfl hcount
  have hoffset : archive.toBytes.numberAt? (place + 16) 4 = some _ := numberAt?_fields hfields 12 rfl hsize
  have hcomment : archive.toBytes.numberAt? (place + 20) 2 = some 0 := numberAt?_fields hfields 16 rfl (by decide)
  have hnone : archive.toBytes.slice? (place + 22) 0 = some [] := by
    simp [Bytes.slice?]
  simp only [EndRecord.read?, hdisk, hdirectoryDisk, hlines, htotal, hoffset, hcomment, hnone, bind, Option.bind]

/-- the directory that the end record of an archive leads to: its first mark from the end of the records on -/
theorem directory?_endRecord {archive : Archive} (hne : archive.entries ≠ []) :
    EndRecord.directory? ⟨0, 0, archive.entries.length, archive.entries.length, archive.records.length⟩
        archive.toBytes (archive.records.length + archive.lines.length) =
      some ⟨archive.records.length, archive.entries.length, 0⟩ := by
  have hcount : archive.entries.length ≠ 0 := fun hzero => hne (List.length_eq_zero_iff.1 hzero)
  obtain ⟨e, rest, hentries⟩ := List.exists_cons_of_ne_nil hne
  have hlines : ∃ more, archive.lines = directoryMark ++ more := by
    rw [lines, hentries, directory, Entry.line]
    simp only [List.append_assoc]
    exact ⟨_, rfl⟩
  obtain ⟨more, hmore⟩ := hlines
  have hlength : 4 ≤ archive.lines.length := by
    rw [hmore, List.length_append]
    exact Nat.le_add_right 4 _
  have hbytes : archive.toBytes =
      archive.records ++ (directoryMark ++ (more ++ (endMark ++ fields archive.endRow))) := by
    rw [toBytes_eq, hmore, List.append_assoc]
  have hmark : directoryMark ≠ [] := by decide
  obtain ⟨before, behind, hplaces, hbefore, -⟩ :=
    Bytes.places_of_occurs archive.records hmark
      (more ++ (endMark ++ fields archive.endRow))
  -- marks inside the records are passed over, because they stand in front of the place that is asked for
  have hfirst : (placesBetween directoryMark archive.toBytes archive.records.length
      (archive.records.length + archive.lines.length)).head? = some archive.records.length := by
    have hnone : before.filter (fun p => archive.records.length ≤ p &&
        p + directoryMark.length ≤ archive.records.length + archive.lines.length) = [] := by
      apply List.filter_eq_nil_iff.2
      intro p hp
      have hlt := hbefore p hp
      simp
      omega
    rw [placesBetween, hbytes, hplaces, List.filter_append, hnone, List.nil_append, List.filter_cons_of_pos]
    · rfl
    · have hfour : directoryMark.length = 4 := rfl
      simp [hfour, hlength]
  simp [EndRecord.directory?, hcount, hfirst]

theorem ofEndRecord?_behind {archive : Archive} {place : Nat}
    (h : archive.records.length + archive.lines.length < place) : ofEndRecord? archive.toBytes place = none := by
  have hcomment : archive.toBytes.numberAt? (place + 20) 2 = none := by
    apply Bytes.numberAt?_beyond
    · rw [length_toBytes]
      omega
    · decide
  have hread : EndRecord.read? archive.toBytes place = none := by
    simp [EndRecord.read?, hcomment]
  rw [ofEndRecord?, hread]
  rfl

/-- the end record of an archive leads to all its entries -/
theorem Fits.ofEndRecord? {archive : Archive} (h : archive.Fits) :
    ofEndRecord? archive.toBytes (archive.records.length + archive.lines.length) = some archive := by
  have hfull :
      EndRecord.isFull ⟨0, 0, archive.entries.length, archive.entries.length, archive.records.length⟩ = false := by
    have hcount := h.count
    have hsize := h.size
    simp only [EndRecord.isFull, Bool.or_eq_false_iff, decide_eq_false_iff_not]
    exact ⟨by omega, Nat.ne_of_lt hsize⟩
  rw [Archive.ofEndRecord?, h.endRecord]
  simp only [bind, Option.bind, hfull, Bool.false_eq_true, if_false]
  by_cases hne : archive.entries = []
  · obtain ⟨entries⟩ := archive
    cases hne
    rfl
  · rw [directory?_endRecord hne]
    have hlines : archive.toBytes.drop archive.records.length =
        directory 0 archive.entries ++ (endMark ++ fields archive.endRow) := by
      rw [toBytes_eq, List.drop_left, lines]
    have hrecords : archive.toBytes.drop 0 =
        archive.entries.flatMap Entry.record ++ (archive.lines ++ (endMark ++ fields archive.endRow)) := by
      rw [toBytes_eq, List.drop_zero, records]
    have hall : entries? archive.toBytes ⟨archive.records.length, archive.entries.length, 0⟩ archive.entries.length
        archive.records.length = some archive.entries :=
      entries?_directory rfl (Nat.lt_trans h.size (by decide)) h.entries hlines hrecords (by rw [Nat.zero_add]; rfl)
    simp only [ofDirectory?, hall, Option.map_some]

/-- **An archive is read back from its bytes.** -/
theorem Fits.ofBytes?_toBytes {archive : Archive} (h : archive.Fits) : ofBytes? archive.toBytes = some archive := by
  have hmark : endMark ≠ [] := by decide
  obtain ⟨before, behind, hplaces, -, hbehind⟩ :=
    Bytes.places_of_occurs (archive.records ++ archive.lines) hmark (fields archive.endRow)
  rw [List.length_append] at hplaces hbehind
  have hbytes : archive.toBytes = (archive.records ++ archive.lines) ++ (endMark ++ fields archive.endRow) := by
    rw [toBytes_eq, List.append_assoc]
  have hnone : behind.reverse.findSome? (Archive.ofEndRecord? archive.toBytes) = none := by
    apply List.findSome?_eq_none_iff.2
    intro place hplace
    exact ofEndRecord?_behind (hbehind place (List.mem_reverse.1 hplace))
  -- the search runs backwards, so the marks behind the end record are tried before it
  rw [← hbytes] at hplaces
  rw [ofBytes?, hplaces]
  simp [List.findSome?_append, hnone, h.ofEndRecord?]

/-! ## Files -/

theorem Entry.found_pack (name : String) (content : Bytes) : (Entry.pack name content).found = .content content := by
  have hcontent : (Entry.pack name content).content? = some content := by
    simp [Entry.pack, content?, Method.unpack?, inflate?_deflate]
  have hopens : (Entry.pack name content).opens = true := rfl
  rw [found, if_pos hopens, hcontent]

theorem Entry.Fits.of_fits {name : String} {content : Bytes} (h : (Entry.pack name content).fits = true) :
    (Entry.pack name content).Fits := by
  simp only [Entry.fits, Bool.and_eq_true, List.all_eq_true, decide_eq_true_eq] at h
  obtain ⟨⟨hascii, hlength⟩, hsize⟩ := h
  exact ⟨Bytes.lossyText_ofText hascii, hlength, hsize.trans (by decide), .inr rfl⟩

/-- **Whatever is written is read back**, file by file. -/
theorem write?_files {files : List (String × Bytes)} {bytes : Bytes} (h : write? files = some bytes) :
    ∃ archive, ofBytes? bytes = some archive ∧ archive.files = files.map fun (name, content) => (name, .content content) := by
  simp only [write?] at h
  split_ifs at h with hfits
  obtain rfl := Option.some.inj h
  simp only [fits, Bool.and_eq_true, List.all_eq_true, decide_eq_true_eq] at hfits
  obtain ⟨⟨hentries, hcount⟩, hsize⟩ := hfits
  rw [length_toBytes] at hsize
  have hall : Fits ⟨files.map fun (name, content) => .pack name content⟩ := by
    refine ⟨fun entry he => ?_, hcount, (Nat.le_add_right _ _).trans_lt ((Nat.le_add_right _ _).trans_lt hsize)⟩
    obtain ⟨file, -, rfl⟩ := List.mem_map.1 he
    exact .of_fits (hentries _ he)
  refine ⟨_, hall.ofBytes?_toBytes, ?_⟩
  simp only [Archive.files, List.map_map]
  exact List.map_congr_left fun file _ => Prod.ext rfl (Entry.found_pack file.1 file.2)

/-- a file with a short name of ASCII characters and a content that goes into one block -/
structure IsShort (name : String) (content : Bytes) : Prop where
  ascii : name.toList.all (·.toNat < 128)
  name : (Bytes.ofText name).length < 0x10000
  content : content.length ≤ 0xFFFF

theorem IsShort.length_pack {name : String} {content : Bytes} (h : IsShort name content) :
    (Entry.pack name content).data.length ≤ 0x10004 := by
  have hshort : content.length ≤ 0xFFFF := h.content
  rw [Entry.pack, deflate, if_pos hshort, storedBlock]
  simp only [List.length_cons, List.length_append, Bytes.length_ofNumber]
  omega

/-- a short file takes at most so much in its record, and in its line -/
theorem length_toBytes_le {entries : List Entry} (h : ∀ entry ∈ entries, (Bytes.ofText entry.name).length < 0x10000 ∧
    entry.data.length ≤ 0x10004) (place : Nat) :
    (entries.flatMap Entry.record).length + (directory place entries).length ≤ 0x40000 * entries.length := by
  induction entries generalizing place with
  | nil => simp [directory]
  | cons entry rest ih =>
    obtain ⟨⟨hname, hdata⟩, hrest⟩ := List.forall_mem_cons.1 h
    have hothers := ih hrest (place + entry.record.length)
    rw [List.flatMap_cons, directory, List.length_append, List.length_append, Entry.length_line, List.length_cons]
    have hrecord := entry.length_record
    omega

theorem fits_of_short {entries : List Entry} (hcount : entries.length ≤ 0x1000)
    (h : ∀ entry ∈ entries, ∃ name content, IsShort name content ∧ entry = .pack name content) :
    fits ⟨entries⟩ = true := by
  have hwide : 0x40000 * 0x1000 + 22 < wideNumber := by decide
  have hall : ∀ entry ∈ entries, (Bytes.ofText entry.name).length < 0x10000 ∧ entry.data.length ≤ 0x10004 := by
    intro entry he
    obtain ⟨name, content, hshort, rfl⟩ := h entry he
    exact ⟨hshort.name, hshort.length_pack⟩
  have hlength := length_toBytes_le hall 0
  simp only [fits, Bool.and_eq_true, List.all_eq_true, decide_eq_true_eq]
  refine ⟨⟨fun entry he => ?_, by omega⟩, ?_⟩
  · obtain ⟨name, content, hshort, rfl⟩ := h entry he
    have hsize : content.length < wideNumber := hshort.content.trans_lt (by decide)
    rw [Entry.fits, Bool.and_eq_true, Bool.and_eq_true, decide_eq_true_eq, decide_eq_true_eq]
    exact ⟨⟨hshort.ascii, hshort.name⟩, hsize⟩
  · rw [length_toBytes]
    exact (Nat.add_le_add_right (hlength.trans (Nat.mul_le_mul_left _ hcount)) 22).trans_lt hwide

theorem write?_isSome {files : List (String × Bytes)} (hcount : files.length ≤ 0x1000)
    (hfiles : ∀ file ∈ files, IsShort file.1 file.2) : (write? files).isSome := by
  have hfits : fits ⟨files.map fun (name, content) => .pack name content⟩ = true := by
    refine fits_of_short (by rwa [List.length_map]) fun entry he => ?_
    obtain ⟨file, hfile, rfl⟩ := List.mem_map.1 he
    exact ⟨file.1, file.2, hfiles file hfile, rfl⟩
  rw [write?, if_pos hfits]
  rfl

end Archive

end Blockwork
