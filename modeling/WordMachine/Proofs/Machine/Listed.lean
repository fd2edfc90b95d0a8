import WordMachine.Proofs.Instruction.Locality
import WordMachine.Proofs.Listing.Sweep
import WordMachine.Proofs.Machine.Stores

/-!
# Running what was listed

A listing shows the instructions of an image, and a machine runs those in its memory. Where no
instruction is cut off by the end of the image, both read the same. So a machine that starts with
the image in memory runs what was listed, as long as the words of the instruction have not been
stored to. Its trace names the instruction as the listing does: both lines consist of the name of
the address, the text of the instruction and what only one of them shows (`runs_as_listed`).
-/

namespace WordMachine

open Text

namespace Machine

open WordMachine.Action

variable {symbols : SymbolTable} {m s : Machine} {i : Instruction}

/-! ### What is fetched -/

/-- A step carries out what it fetches. -/
private theorem step_of_fetch {length : Nat} (h : s.fetch = .ok (i, length)) :
    step symbols s =
      (do trace fun _ => instructionLine symbols s.pc i
          let control ← execute i s.pc (s.pc + UInt16.ofNat length)
          traceRegisters
          proceed control
          return control : Action Control) s := by
  simp only [step, carryOut, bind_apply, get_apply, h]
  cases trace (fun _ => instructionLine symbols s.pc i) s <;> rfl

/-- Where memory holds an image but for what was stored, an instruction of the image is fetched
whose words have not been stored to. -/
theorem fetch_of_decode {image : Image} {stores : List (Word × Word)}
    (hmemory : s.memory = (Memory.ofImage image).replay stores)
    (hdecode : Instruction.decode image.words s.pc.toNat = .ok (i, i.length))
    (hkept : ∀ store ∈ stores,
      store.1.toNat < s.pc.toNat ∨ s.pc.toNat + i.length ≤ store.1.toNat) :
    s.fetch = .ok (i, i.length) := by
  have hloaded : Instruction.decode (Memory.ofImage image).words s.pc.toNat =
      .ok (i, i.length) := by
    rw [Instruction.decode_memory fun e he => ?_, hdecode]
    cases hdecode.symm.trans he
  rw [fetch, hmemory]
  -- What was stored since lies outside of the instruction's words.
  refine Instruction.decode_congr hloaded fun k hle hlt => Memory.getElem?_words_replay ?_
  intro store hstore heq
  have := hkept store hstore
  omega

/-! ### The main result -/

/-- The line of an instruction in a listing: the name of the address, its words in a full listing,
its text, and the remark on the address if there is one. -/
private theorem exists_text_instruction (style : Listing.Style) (address : Word) (i : Instruction)
    (shown : List Word) :
    ∃ remark, (Listing.Item.instruction address.toNat i shown).text style =
      alignRight Listing.nameWidth (style.symbols.addressName address) ++ ":  " ++
        (if style.full then Listing.rawText address shown else "") ++ i.render style.symbols ++
          remark ++ "\n" := by
  have haddress : Listing.addressOf address.toNat = address := UInt16.ofNat_toNat
  have hremarked : ∃ remark,
      Listing.remarkedText style address i = i.render style.symbols ++ remark := by
    rw [Listing.remarkedText]
    cases style.notes.remark? address with
    | none => exact ⟨"", String.append_empty.symm⟩
    | some remark =>
      refine ⟨spaces (Listing.instructionWidth - (i.render style.symbols).length) ++ "// " ++
        remark, ?_⟩
      simp only [alignLeft, String.append_assoc]
  obtain ⟨remark, hremark⟩ := hremarked
  refine ⟨remark, ?_⟩
  simp only [Listing.Item.text, haddress, hremark, String.append_assoc]

/-- **Listings and machines read the same instructions.** Decoding a loaded image gives what
decoding the image gives, unless the words of the image end too early; behind the end of the image
memory holds halts. So they differ only where the end of the image cuts an instruction off, or
between the end of the image and the end of memory.

Let a machine run any number of steps from the image in memory, and come to the position of an
instruction that is listed. If none of these steps was to store to a word of the instruction, the
next step fetches the listed instruction, traces it and carries it out. Its line in the trace has
the same name of the address and the same text as its line in the listing. -/
theorem runs_as_listed (style : Listing.Style) (image : Image) :
    (∀ position,
      ((∀ e, Instruction.decode image.words position = .error e → ¬e.IsCutOff) →
        Instruction.decode (Memory.ofImage image).words position =
          Instruction.decode image.words position) ∧
      (Instruction.decode image.words position = .error .endOfStream → position < memorySize →
        Instruction.decode (Memory.ofImage image).words position = .ok (.halt, 1)) ∧
      (Instruction.decode (Memory.ofImage image).words position ≠
          Instruction.decode image.words position →
        (∃ opcode expected found, Instruction.decode image.words position =
          .error (.truncated opcode expected found)) ∨
        (image.words.size ≤ position ∧ position < memorySize))) ∧
    ∀ (start : Word) (limit : Option Nat) (m s : Machine) (n position : Nat) (i : Instruction)
      (shown : List Word), m.memory = .ofImage image → loop style.symbols n m = (s, none) →
      .instruction position i shown ∈ (Listing.ofWords image.words style.notes start limit).items →
      s.pc.toNat = position →
      (∀ t ∈ history style.symbols n m, ∀ address value, t.stored? = some (address, value) →
        address.toNat < position ∨ position + i.length ≤ address.toNat) →
      s.fetch = .ok (i, i.length) ∧
        step style.symbols s =
          (do trace fun _ => instructionLine style.symbols s.pc i
              let control ← execute i s.pc (s.pc + UInt16.ofNat i.length)
              traceRegisters
              proceed control
              return control : Action Control) s ∧
        instructionLine style.symbols s.pc i =
          alignRight Listing.nameWidth (style.symbols.addressName s.pc) ++ ": " ++
            i.render style.symbols ∧
        ∃ remark, (Listing.Item.instruction position i shown).text style =
          alignRight Listing.nameWidth (style.symbols.addressName s.pc) ++ ":  " ++
            (if style.full then Listing.rawText s.pc shown else "") ++ i.render style.symbols ++
              remark ++ "\n" := by
  refine ⟨fun position => ⟨Instruction.decode_memory, fun hend hlt => ?_,
    Instruction.truncated_or_behind_of_decode_ne⟩, ?_⟩
  · exact Instruction.decode_memory_of_size_le (Instruction.decode_eq_endOfStream_iff.mp hend) hlt
  · rintro start limit m s n _ i shown hmemory hloop hlisted rfl hkept
    have hsweep := Listing.sweep_ofWords image.words style.notes start limit
    obtain ⟨-, -, hdecode, -⟩ := hsweep.of_mem_instruction (Array.mem_toList_iff.mpr hlisted)
    have hstored := memory_of_loop_none hloop
    rw [hmemory] at hstored
    have hfetch : s.fetch = .ok (i, i.length) := by
      refine fetch_of_decode hstored hdecode fun store hstore => ?_
      obtain ⟨t, ht, hsome⟩ := List.mem_filterMap.mp hstore
      exact hkept t ht store.1 store.2 hsome
    exact ⟨hfetch, step_of_fetch hfetch, rfl, exists_text_instruction style s.pc i shown⟩

/-- A store without a tracer. -/
private theorem step_store {address source : Operand}
    (hfetch : m.fetch = .ok (.store address source, 3)) (htracer : m.tracer = none)
    (hholds : Memory.Holds (m.core.value address)) :
    step symbols m = .ok ⟨none, m.pc + 3⟩
      { m with
        memory := m.memory.put (m.core.value address) (m.core.value source), pc := m.pc + 3 } := by
  obtain ⟨memory, registers, stack, pc, input, output, haltAt, tracer, tracing, journal⟩ := m
  cases htracer
  rw [step_apply, hfetch]
  simp only [Instruction.effect, Memory.write, if_pos hholds]
  rfl

/-- A program that stores a word behind itself and writes a byte. -/
def storingImage : Image := ⟨#[16, 10, 5, 19, 65, 0], by decide⟩

/-- A machine that is about to store. -/
def storing : Machine := ofImage storingImage

/-- The machine when it has stored. -/
def stored : Machine :=
  { storing with
    memory := storing.memory.put (storing.core.value (.literal 10))
      (storing.core.value (.literal 5))
    pc := storing.pc + 3 }

theorem runs_as_listed_stored :
    loop .empty 1 storing = (stored, none) ∧ stored.pc.toNat = 3 ∧
      .instruction 3 (.output (.literal 65)) [19, 65] ∈
        (Listing.ofWords storingImage.words .empty 0 none).items ∧
      stored.fetch = .ok (.output (.literal 65), 2) := by
  have hmemory : storing.memory = .ofImage storingImage := rfl
  have hpc : storing.pc = 0 := rfl
  have hfetch : storing.fetch = .ok (.store (.literal 10) (.literal 5), 3) := by
    rw [fetch_of_image hmemory (by decide), hpc]
    rfl
  have hstep : step .empty storing = .ok ⟨none, storing.pc + 3⟩ stored :=
    step_store hfetch rfl (by decide : Memory.Holds 10)
  have hloop : loop .empty 1 storing = (stored, none) := by
    rw [loop_succ, hstep]
    rfl
  have hlisted : .instruction 3 (.output (.literal 65)) [19, 65] ∈
      (Listing.ofWords storingImage.words .empty 0 none).items := by
    decide +kernel
  have hkept : ∀ t ∈ history .empty 1 storing, ∀ address value,
      t.stored? = some (address, value) → address.toNat < 3 ∨ 3 + 2 ≤ address.toNat := by
    intro t ht address value hstored
    obtain ⟨k, hk, hreached⟩ := mem_history_iff.mp ht
    obtain rfl : k = 0 := Nat.lt_one_iff.mp hk
    obtain ⟨rfl, -⟩ := Prod.mk.inj hreached
    rw [stored?, hfetch] at hstored
    cases hstored
    exact .inr (by decide)
  obtain ⟨-, hruns⟩ := runs_as_listed ⟨.empty, .empty, true⟩ storingImage
  obtain ⟨hfetched, -⟩ := hruns 0 none storing stored 1 3 _ _ hmemory hloop hlisted rfl hkept
  exact ⟨hloop, rfl, hlisted, hfetched⟩

end Machine

end WordMachine
