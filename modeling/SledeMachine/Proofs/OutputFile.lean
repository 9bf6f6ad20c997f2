import SledeMachine.CommandLine.Commands
import SledeMachine.Proofs.FileKind
import SledeMachine.Proofs.Path
import SledeMachine.Proofs.Task

/-!
The file that assembling writes. Nothing is written unless the source is read and assembled, and
what is written then is one file. Without a given output it stands beside the source and has its
name with another extension; so it is the source file itself if the source has that extension
already, and otherwise the source file is kept.
-/

namespace SledeMachine

namespace Utf8

theorem decode_eq_ok_iff {bytes : List UInt8} {t : Text} :
    decode bytes = .ok t ↔ bytes = t.utf8 := by
  constructor
  · intro decoded
    simp only [decode, String.fromUTF8?] at decoded
    split at decoded
    · rename_i s read
      split_ifs at read with valid
      obtain rfl := Option.some.inj read
      obtain rfl := Except.ok.inj decoded
      have encoded : (String.fromUTF8 bytes.toByteArray valid).toList.utf8Encode =
          bytes.toByteArray := String.utf8Encode_toList
      simpa [List.utf8Encode, Text.utf8] using (congrArg (fun b => b.data.toList) encoded).symm
    · cases decoded
  · rintro rfl
    exact decode_utf8 t

end Utf8

namespace CommandLine

/-- The default output is no device, whatever the source is. -/
theorem resolve_defaultOutput_ne_null (d : Directory) (source : Text) :
    d.resolve (defaultOutput source) ≠ .ok .null := by
  intro null
  have last := Directory.getLast?_of_resolve_null null
  obtain nameless | ⟨lead, name, skipped, named⟩ := Path.nameless_or_named source
  · obtain ⟨_, improper, last'⟩ := nameless.exists_getLast?
    rw [defaultOutput, nameless.withExtension_eq_self] at last
    rw [← Option.some.inj (last.symm.trans last')] at improper
    exact absurd improper (by decide)
  · rw [defaultOutput, named.splitOn_withExtension (by decide), List.getLast?_concat] at last
    have null : Path.stem name ++ ".s8".toList = "null".toList := Option.some.inj last
    have extended : ".s8".toList <:+ "null".toList := null ▸ List.suffix_append _ _
    exact absurd extended (by decide)

/-- A source and its default output are the same file only if they are the same path. -/
theorem defaultOutput_eq_self {d : Directory} {source name : Text}
    (own : d.resolve source = .ok (.entry name false))
    (output : d.resolve (defaultOutput source) = .ok (.entry name false)) :
    defaultOutput source = source := by
  obtain nameless | ⟨lead, last, skipped, named⟩ := Path.nameless_or_named source
  · exact nameless.withExtension_eq_self _
  obtain ⟨ends, proper⟩ := Directory.getLast?_of_resolve_entry own
  have ends' := (Directory.getLast?_of_resolve_entry output).1
  rw [defaultOutput, named.splitOn_withExtension (by decide), List.getLast?_concat] at ends'
  have extended : Path.stem last ++ '.' :: "s8".toList = name := Option.some.inj ends'
  -- Nothing can be skipped behind a name that the path ends with.
  obtain rfl | ⟨before, other, rfl⟩ := List.eq_nil_or_concat' skipped
  · rw [named.splits, List.getLast?_concat] at ends
    obtain rfl := Option.some.inj ends
    rw [defaultOutput, named.withExtension_eq, extended, ← named.splits, List.intercalate_splitOn]
  · rw [named.splits, ← List.cons_append, ← List.append_assoc, List.getLast?_concat] at ends
    obtain rfl := Option.some.inj ends
    obtain rfl | rfl := named.skips other List.mem_concat_self <;> exact absurd (by decide) proper

/-- A source that is read as text and assembled. -/
def Assembles (d : Directory) (source : Text) (target : Target) : Prop :=
  ∃ text : Text, d.read source = .ok text.utf8 ∧ assemble text = .ok target

section
variable {d : Directory} {source : Text} {image : List UInt8}

theorem result_assembleSource_eq_ok_iff :
    (assembleSource d.read source).result = .ok image ↔
      ∃ target, Assembles d source target ∧ target.image = image := by
  constructor
  · intro made
    obtain ⟨bytes, held, made⟩ := Task.result_bind_eq_ok_iff.mp made
    obtain ⟨text, decoded, made⟩ := Task.result_bind_eq_ok_iff.mp made
    obtain ⟨target, assembled, made⟩ := Task.result_bind_eq_ok_iff.mp made
    obtain ⟨-, -, assembled⟩ := Task.result_bind_eq_ok_iff.mp assembled
    rw [readFile, Task.result_ofExcept_eq_ok_iff] at held
    rw [Task.result_ofExcept_eq_ok_iff] at decoded assembled
    rw [Utf8.decode_eq_ok_iff] at decoded
    exact ⟨target, ⟨text, decoded ▸ held, assembled⟩, Except.ok.inj made⟩
  · rintro ⟨target, ⟨text, held, assembled⟩, rfl⟩
    refine Task.result_bind_eq_ok_iff.mpr ⟨text.utf8, ?_, ?_⟩
    · rw [readFile, Task.result_ofExcept_eq_ok_iff, held]
    refine Task.result_bind_eq_ok_iff.mpr ⟨text, ?_, ?_⟩
    · rw [Task.result_ofExcept_eq_ok_iff, Utf8.decode_utf8]
    refine Task.result_bind_eq_ok_iff.mpr ⟨target, ?_, rfl⟩
    refine Task.result_bind_eq_ok_iff.mpr ⟨(), rfl, ?_⟩
    rw [Task.result_ofExcept_eq_ok_iff, assembled]

theorem exit_afterWrite {α : Type} (written : Transcript) (path : Text) (size : Nat)
    (outcome : Except FileError α) :
    (afterWrite written path size outcome).exit = if outcome.isOk then 0 else 1 := by
  cases outcome <;> rfl

/-- What assembling does once the image is made: the image is written, or nothing is. -/
theorem execute_asm_of_assembles {target : Target} (assembles : Assembles d source target)
    (input : Text) (output : Option Text) :
    let made := execute d input (.asm source output)
    let wrote := d.write (output.getD (defaultOutput source)) target.image
    (∃ after, wrote = .ok after ∧ made.1.exit = 0 ∧ made.2 = after) ∨
      ∃ e, wrote = .error e ∧ made.1.exit = 1 ∧ made.2 = d := by
  intro made wrote
  have result := result_assembleSource_eq_ok_iff.mpr ⟨target, assembles, rfl⟩
  cases outcome : d.write (output.getD (defaultOutput source)) target.image with
  | ok after =>
      simp only [made, execute, reply, result, outcome]
      exact .inl ⟨after, outcome, exit_afterWrite _ _ _ _, rfl⟩
  | error e =>
      simp only [made, execute, reply, result, outcome]
      exact .inr ⟨e, outcome, exit_afterWrite _ _ _ _, trivial⟩

/-- Nothing is written where the source is not read, is no text or is not accepted. -/
theorem execute_asm_of_not_assembles (fails : ∀ target, ¬ Assembles d source target)
    (input : Text) (output : Option Text) :
    let made := execute d input (.asm source output)
    made.1.exit = 1 ∧ made.2 = d := by
  intro made
  cases result : (assembleSource d.read source).result with
  | ok image =>
      obtain ⟨target, assembles, -⟩ := result_assembleSource_eq_ok_iff.mp result
      exact absurd assembles (fails target)
  | error e =>
      have report : ((assembleSource d.read source).bind fun _ => Task.pure ()).report.exit = 1 :=
        congrArg Report.exit (Task.report_bind_of_error result)
      simp only [made, execute, reply, result]
      exact ⟨report, trivial⟩

end

/-- Assembling without a given output: what is written and what is kept. The source is lost where
its name ends in the extension of images, and only there. -/
theorem asm_writes_beside (d : Directory) (input source : Text) :
    let output := defaultOutput source
    let made := execute d input (.asm source none)
    (∀ target, Assembles d source target →
      (∃ name, d.resolve output = .ok (.entry name false) ∧ made.1.exit = 0 ∧
          made.2.find? name = some target.image ∧
          ∀ other, other ≠ name → made.2.find? other = d.find? other) ∨
        ∃ e, d.write output target.image = .error e ∧ made.1.exit = 1 ∧ made.2 = d) ∧
      ((∀ target, ¬ Assembles d source target) → made.1.exit = 1 ∧ made.2 = d) ∧
      (output ≠ source → made.2.read source = d.read source) ∧
      (∀ target, output = source → Assembles d source target →
        made.1.exit = 0 ∧ made.2.read source = .ok target.image ∧
          made.2.read source ≠ d.read source) ∧
      (output = source ↔
        Path.Nameless source ∨ ∃ front c, c ≠ '/' ∧ source = front ++ c :: ".s8".toList) ∧
      (Path.Nameless source → ∀ bytes, d.read source ≠ .ok bytes) := by
  intro output made
  have writes (target : Target) (assembles : Assembles d source target) :
      (∃ name, d.resolve output = .ok (.entry name false) ∧ made.1.exit = 0 ∧
          made.2 = d.put name target.image) ∨
        ∃ e, d.write output target.image = .error e ∧ made.1.exit = 1 ∧ made.2 = d := by
    obtain ⟨after, wrote, exit, rfl⟩ | failed := execute_asm_of_assembles assembles input none
    · obtain ⟨name, leads, put⟩ :=
        Directory.write_eq_ok wrote (resolve_defaultOutput_ne_null d source)
      exact .inl ⟨name, leads, exit, put⟩
    · exact .inr failed
  have fails (none : ∀ target, ¬ Assembles d source target) : made.1.exit = 1 ∧ made.2 = d :=
    execute_asm_of_not_assembles none input _
  refine ⟨fun target assembles => ?_, fails, fun apart => ?_, fun target same assembles => ?_,
    Path.withExtension_eq_self_iff (by decide) (by decide) (by decide),
    fun nameless => nameless.read_ne_ok d⟩
  · obtain ⟨name, leads, exit, after⟩ | failed := writes target assembles
    · refine .inl ⟨name, leads, exit, ?_, fun other apart => ?_⟩
      · rw [after, Directory.find?_put, if_pos rfl]
      · rw [after, Directory.find?_put, if_neg apart]
    · exact .inr failed
  · by_cases accepted : ∃ target, Assembles d source target
    · obtain ⟨target, assembles⟩ := accepted
      obtain ⟨name, leads, -, after⟩ | ⟨-, -, -, after⟩ := writes target assembles
      · obtain ⟨text, held, -⟩ := assembles
        rw [after, held]
        refine Directory.read_put_of_ne held (fun own => apart ?_) _
        exact defaultOutput_eq_self own leads
      · rw [after]
    · rw [(fails (not_exists.mp accepted)).2]
  · obtain ⟨text, held, accepted⟩ := assembles
    obtain ⟨name, leads⟩ := (Directory.resolve_of_read held).resolve_left
      (same ▸ resolve_defaultOutput_ne_null d source)
    obtain ⟨_, leads', exit, after⟩ | ⟨e, failed, -⟩ := writes target ⟨text, held, accepted⟩
    · have image : made.2.read source = .ok target.image := by
        rw [after]
        exact Directory.read_put (same ▸ leads') _
      refine ⟨exit, image, fun kept => ?_⟩
      have bytes : target.image = text.utf8 := Except.ok.inj (image.symm.trans (kept.trans held))
      exact (not_tagged_of_assemble accepted).2 (bytes ▸ List.prefix_append _ _)
    · rw [same, Directory.write_eq_put leads] at failed
      cases failed

/-- A source that is kept, with its image beside it. -/
theorem asm_writes_beside_source :
    let source : Text := "STOPP\n".toList
    let target : Target := ⟨[0x00, 0x00], ⟨[(0, ⟨0, 0, "STOPP".toList⟩)], by decide⟩⟩
    let path := "p.asm".toList
    let name := "p.s8".toList
    let d : Directory := ⟨[(path, source.utf8)]⟩
    let made := execute d [] (.asm path none)
    (Assembles d path target ∧ defaultOutput path ≠ path) ∧
      made.2.find? name = some target.image ∧ made.2.read path = .ok source.utf8 := by
  intro source target path name d made
  have held : d.read path = .ok source.utf8 := by decide +kernel
  have assembles : Assembles d path target := ⟨source, held, by decide +kernel⟩
  have apart : defaultOutput path ≠ path := by decide +kernel
  have leads : d.resolve (defaultOutput path) = .ok (.entry name false) := by decide +kernel
  obtain ⟨writes, -, kept, -⟩ := asm_writes_beside d [] path
  refine ⟨⟨assembles, apart⟩, ?_, held ▸ kept apart⟩
  obtain ⟨other, leads', -, image, -⟩ | ⟨e, failed, -⟩ := writes target assembles
  · have same : name = other := by simpa [leads] using leads'
    exact same ▸ image
  · rw [Directory.write_eq_put leads] at failed
    cases failed

/-- A source whose name ends as those of images do is written over. -/
theorem asm_writes_over_source :
    let path := "p.s8".toList
    let d : Directory := ⟨[(path, Text.utf8 "STOPP\n".toList)]⟩
    let made := execute d [] (.asm path none)
    made.1.exit = 0 ∧ made.2.read path ≠ d.read path := by
  decide +kernel

end CommandLine
end SledeMachine
