import NodeInventory.Proofs.Json.Fields
import NodeInventory.Proofs.Json.RoundTrip
import NodeInventory.Task

/-!
# Tasks in the queue

What is queued is what is worked off: a task is read from its own text, whatever names it holds
(`tasks_survive_the_queue`). A task may be written by others in other ways, with blanks, with its
members in another order or with escapes that are not needed. All of these are read as tasks that
can be queued again.

The names stand in the text as they are, between quotes. A character is escaped only where the text
would end with it or not be read (`Json.escapeChar_eq_self_iff`).
-/

namespace NodeInventory

namespace Json

theorem areSound_texts (depth : Nat) (l : List String) : areSound depth (l.map text) = true := by
  induction l with
  | nil => rfl
  | cons s l ih => rw [List.map_cons, areSound, isSound_text, ih, Bool.and_self]

theorem write_append_writeItems_texts (s : String) (l : List String) :
    write (text s) ++ writeItems (l.map text) =
      [','].intercalate ((s :: l).map fun s ↦ writeString (some s)) ++ [']'] := by
  induction l generalizing s with
  | nil => simp [writeItems, write, text]
  | cons t l ih =>
    rw [List.map_cons, writeItems, List.cons_append, ih t, List.map_cons, List.map_cons,
      List.map_cons, List.intercalate_cons_cons]
    simp [write, text]

theorem write_texts (l : List String) :
    write (texts l) = '[' :: [','].intercalate (l.map fun s ↦ writeString (some s)) ++ [']'] := by
  cases l with
  | nil => rfl
  | cons s l =>
    rw [texts, List.map_cons, write, List.cons_append, write_append_writeItems_texts]
    rfl

/-- Only the quote, the backslash and the characters below U+0020 are escaped. -/
theorem escapeChar_eq_self_iff (c : Char) :
    escapeChar c = [c] ↔ ¬ (c = '"' ∨ c = '\\' ∨ c.toNat < 0x20) := by
  unfold escapeChar
  split <;> simp_all

end Json

namespace Task

theorem decode_encode (words : Wording) (t : Task) : decode words t.encode = .ok t := by
  obtain ⟨names⟩ := t
  have hsound : (Json.texts names).isSound (Json.maxDepth - 1) := by
    rw [Json.texts, Json.isSound, Json.areSound_texts]
    decide
  have henvelope : envelope? (Json.record [("type", .text nodeBatchType),
      ("payload", Json.texts names)]) = some (nodeBatchType, Json.texts names) := by
    simp [envelope?, Json.fields?, Json.record, Json.keysDenote, Json.occurrences, hsound]
  rw [decode, encode, Json.parse_render, Option.bind_some, type, payload, henvelope]
  simp [Json.list?_text?_texts]

/-- The text of a task that names nodes. -/
theorem toList_encode_nodeBatch (names : List String) :
    (nodeBatch names).encode.toList =
      "\x7b\"type\":\"node_batch\",\"payload\":[".toList ++
        [','].intercalate (names.map fun s ↦ Json.writeString (some s)) ++ "]\x7d".toList := by
  have hrecord (v : Json) : (Json.record [("type", .text nodeBatchType), ("payload", v)]).write =
      '\x7b' :: Json.writeString (some "type") ++ ':' :: Json.writeString (some nodeBatchType) ++
        (',' :: Json.writeString (some "payload") ++ ':' :: v.write ++ ['\x7d']) := by
    simp only [Json.record, Json.text, List.map_cons, List.map_nil, Json.write, Json.writeMembers]
  have hopen : "\x7b\"type\":\"node_batch\",\"payload\":[".toList =
      '\x7b' :: Json.writeString (some "type") ++ ':' :: Json.writeString (some nodeBatchType) ++
        ',' :: Json.writeString (some "payload") ++ [':', '['] := by decide
  have hclose : "]\x7d".toList = [']', '\x7d'] := by decide
  rw [encode, Json.render, String.toList_ofList, type, payload, hrecord, Json.write_texts, hopen,
    hclose]
  simp only [List.append_assoc, List.cons_append, List.nil_append]

end Task

/-- A task is read from its own text, which holds the names one after another, each between quotes
and with no other characters escaped than the quote, the backslash and those below U+0020. So is
every task that was read from any text. -/
theorem tasks_survive_the_queue (words : Wording) :
    (∀ names, Task.decode words (Task.nodeBatch names).encode = .ok (.nodeBatch names)) ∧
    (∀ raw t, Task.decode words raw = .ok t → Task.decode words t.encode = .ok t) ∧
    (∀ names, (Task.nodeBatch names).encode.toList =
      "\x7b\"type\":\"node_batch\",\"payload\":[".toList ++
        [','].intercalate (names.map fun s ↦ ['"'] ++ s.toList.flatMap Json.escapeChar ++ ['"']) ++
        "]\x7d".toList) ∧
    ∀ c, Json.escapeChar c = [c] ↔ ¬ (c = '"' ∨ c = '\\' ∨ c.toNat < 0x20) := by
  refine ⟨fun names ↦ Task.decode_encode words _, fun _ t _ ↦ Task.decode_encode words t, ?_,
    Json.escapeChar_eq_self_iff⟩
  exact Task.toList_encode_nodeBatch

/-- A task that was written by others, its members the other way around and one of them unknown. -/
def respelled : String :=
  (Json.record [("payload", Json.texts ["a"]), ("sender", .nat 7),
    ("type", .text Task.nodeBatchType)]).render

theorem respelled_task_survives :
    let words : Wording := default
    Task.decode words respelled = .ok (.nodeBatch ["a"]) ∧
      Task.decode words (Task.nodeBatch ["a"]).encode = .ok (.nodeBatch ["a"]) := by
  intro words
  have henvelope : Task.envelope? (Json.record [("payload", Json.texts ["a"]), ("sender", .nat 7),
      ("type", .text Task.nodeBatchType)]) = some (Task.nodeBatchType, Json.texts ["a"]) := rfl
  have hread : Task.decode words respelled = .ok (.nodeBatch ["a"]) := by
    rw [Task.decode, respelled, Json.parse_render, Option.bind_some, henvelope]
    simp [Json.list?_text?_texts]
  exact ⟨hread, (tasks_survive_the_queue words).2.1 _ _ hread⟩

end NodeInventory
