import FormulaMigration.Ledger
import FormulaMigration.Proofs.JsonRoundTrip

namespace FormulaMigration

namespace JsonReading

theorem text_written (t : Text) : text (.string (.ofWritten t)) = .ok t :=
  StringReading.text?_ofWritten t

theorem word_written (n : UInt64) : word (.number (JsonNumber.natural n).numeral) = .ok n := by
  rw [word, JsonNumber.numeral, Numeral.value?_ofNat]

theorem choice_written {α : Type} {variants : List (Text × α)} {name : Text} {a : α}
    (known : variants.lookup name = some a) :
    choice variants (.string (.ofWritten name)) = .ok a := by
  simp only [choice, variant, StringReading.text?_ofWritten, bind, Except.bind, known]

theorem foldlM_written {σ α : Type} {fields : List (JsonField σ)} {name : String}
    {item : JsonReading → Except JsonFault α} {get : σ → Option α} {put : α → σ → σ} {s : σ}
    {key : Text} {v : JsonReading} {a : α} (members : List (StringReading × JsonReading))
    (found : fields.find? (·.name = key) = some (.of name item get put)) (unset : get s = none)
    (value : item v = .ok a) :
    ((.ofWritten key, v) :: members).foldlM (setMember fields) s =
      members.foldlM (setMember fields) (put a s) := by
  have member : setMember fields s (.ofWritten key, v) = .ok (put a s) := by
    simp only [setMember, StringReading.text?_ofWritten, bind, Except.bind, found, JsonField.of,
      unset, value, Option.isSome_none, Bool.false_eq_true, if_false]
  rw [List.foldlM_cons, member]
  rfl

end JsonReading

open JsonReading

namespace Issue

theorem legible_toJson (issue : Issue) : issue.toJson.Legible 1 := by
  apply Json.legible_record
  · simp
  · simp [Json.Legible]

theorem ofReading_written (issue : Issue) : ofReading issue.toJson.written = .ok issue := by
  have read : issue.toJson.written.fields fields ⟨none, none, none⟩ =
      .ok ⟨some issue.kind, some issue.subject, some issue.detail⟩ := by
    change List.foldlM (setMember fields) _
      [(.ofWritten "kind".toList, .string (.ofWritten issue.kind.name)),
        (.ofWritten "subject".toList, .string (.ofWritten issue.subject)),
        (.ofWritten "detail".toList, .string (.ofWritten issue.detail))] >>= _ = _
    rw [foldlM_written _ rfl rfl (choice_written (IssueKind.lookup_names issue.kind)),
      foldlM_written _ rfl rfl (text_written issue.subject),
      foldlM_written _ rfl rfl (text_written issue.detail)]
    rfl
  rw [ofReading, read]
  rfl

end Issue

namespace Record

theorem legible_toJson (record : Record) : record.toJson.Legible 2 := by
  apply Json.legible_record
  · simp
  · simp [Json.Legible, record.issue.legible_toJson]

theorem ofReading_written (record : Record) : ofReading record.toJson.written = .ok record := by
  have read : record.toJson.written.fields fields ⟨none, none⟩ =
      .ok ⟨some record.time, some record.issue⟩ := by
    change List.foldlM (setMember fields) _
      [(.ofWritten "ts_unix_ms".toList, .number (JsonNumber.natural record.time).numeral),
        (.ofWritten "issue".toList, record.issue.toJson.written)] >>= _ = _
    rw [foldlM_written _ rfl rfl (word_written record.time),
      foldlM_written _ rfl rfl record.issue.ofReading_written]
    rfl
  rw [ofReading, read]
  rfl

theorem ofText_compact (record : Record) : ofText record.toJson.compact = .ok record := by
  rw [ofText, Json.compact_eq_laid 0, decodeText_laid _ _ 0 record.legible_toJson]
  exact record.ofReading_written

theorem compact_ne_nil (record : Record) : record.toJson.compact ≠ [] := by
  intro empty
  have read := record.ofText_compact
  rw [empty] at read
  cases read

end Record

namespace Ledger

/-- Cut at its newlines the text of a ledger gives as many lines as there are records, none of them
empty and nothing after the last, and each line gives the record in its place back. -/
theorem splitOn_lines (l : Ledger) :
    ∃ lines : List Text, l.lines.splitOn '\n' = lines ++ [[]] ∧
      lines.length = l.records.length ∧ (∀ line ∈ lines, line ≠ []) ∧
      lines.map Record.ofText = l.records.map .ok := by
  refine ⟨l.records.map fun record => record.toJson.compact, ?_, ?_, ?_, ?_⟩
  · obtain ⟨records⟩ := l
    change List.splitOn '\n' (records.flatMap fun record => record.toJson.compact ++ ['\n']) = _
    induction records with
    | nil => rfl
    | cons record records ih =>
      have line := (Json.printed_compact record.legible_toJson).notMem_newline
      rw [List.flatMap_cons, List.append_assoc, List.singleton_append,
        List.splitOn_append_cons_self_of_not_mem line, ih, List.map_cons, List.cons_append]
  · rw [List.length_map]
  · intro line hline
    obtain ⟨record, -, rfl⟩ := List.mem_map.mp hline
    exact record.compact_ne_nil
  · simp only [List.map_map, Function.comp_def, Record.ofText_compact]

end Ledger

end FormulaMigration
