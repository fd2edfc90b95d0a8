import WordMachine.Proofs.Command.Activity
import WordMachine.Proofs.Image.Bytes
import WordMachine.Proofs.Machine.Listed

/-!
# The file of the final memory

When a program halts, `run` writes the whole memory to a file if it was asked to (`run_dumps`). Such
a file is an image like any other, and to load it is to have the memory back: so a program can be
taken up again where it halted, and dumps can be listed like programs (`round_trip`).
-/

namespace WordMachine.Command

open Text

namespace Session

open Activity

variable {s : Session} {path : String} {names : List String} {bytes : List UInt8}

/-! ### Reading and writing -/

theorem get_apply (s : Session) : (get : Activity Session) s = .ok s s := rfl

theorem placeOf_apply (path : String) (s : Session) :
    placeOf path s = .ok (s.folder.leadsTo path) s := rfl

/-- What is printed does not go to the folder. -/
private theorem exists_print (bytes : List UInt8) (s : Session) :
    ∃ s', print bytes s = .ok () s' ∧ s'.folder = s.folder := ⟨_, rfl, rfl⟩

private theorem exists_report (text : String) (s : Session) :
    ∃ s', report text s = .ok () s' ∧ s'.folder = s.folder ∧ s'.input = s.input :=
  ⟨_, rfl, rfl, rfl⟩

/-- A path that leads to a file can be written to. The file is there then, and paths lead where they
led before. -/
private theorem exists_writeFile (place : s.folder.leadsTo path = .file names)
    (bytes : List UInt8) :
    ∃ s', writeFile path bytes s = .ok () s' ∧ s'.folder.read? path = some bytes ∧
      s'.folder.leadsTo = s.folder.leadsTo := by
  obtain ⟨written, hwrite, hleads⟩ : ∃ written, s.folder.write? path bytes = some written ∧
      written.leadsTo = s.folder.leadsTo := by
    rw [Folder.write?, place]
    exact ⟨_, rfl, rfl⟩
  refine ⟨{ s with folder := written }, ?_, Folder.read?_write? place hwrite, hleads⟩
  rw [writeFile, bind_of_ok (placeOf_apply path s), place]
  dsimp only
  rw [bind_of_ok (get_apply s), hwrite]
  rfl

/-- A file can be read by a path that leads to it. -/
private theorem readFile_of_read? (place : s.folder.leadsTo path = .file names)
    (h : s.folder.read? path = some bytes) : readFile path s = .ok bytes s := by
  rw [readFile, bind_of_ok (placeOf_apply path s), place, bind_of_ok (get_apply s)]
  dsimp only
  rw [bind_of_ok (get_apply s), h]
  rfl

private theorem readImage_of_read? {image : Image} (place : s.folder.leadsTo path = .file names)
    (h : s.folder.read? path = some bytes) (himage : Image.ofBytes bytes.toArray = .ok image) :
    readImage path s = .ok image s := by
  rw [readImage, bind_of_ok (readFile_of_read? place h), himage]
  rfl

/-- Saving the trace succeeds, and paths lead where they led before. -/
private theorem exists_saveTrace (machine : Machine) (path : String) (s : Session) :
    ∃ s', saveTrace machine path s = .ok () s' ∧ s'.folder.leadsTo = s.folder.leadsTo := by
  rw [saveTrace, bind_of_ok (placeOf_apply path s)]
  cases hplace : s.folder.leadsTo path with
  | file names =>
    obtain ⟨s', hwrite, -, hleads⟩ := exists_writeFile hplace (utf8 machine.traceText)
    exact ⟨s', hwrite, hleads⟩
  | special file => exact ⟨s, rfl, rfl⟩
  | nowhere => exact ⟨s, rfl, rfl⟩

/-! ### The dump -/

section Dump

variable {surroundings : Surroundings} {options : RunOptions} {fuel : Nat} {symbols : SymbolTable}
  {machine last : Machine} {goal : Option Place} {ready : Session} {halt : Halt}

/-- When a program has halted, its memory is written to the file that was asked for. -/
private theorem exists_conclude (hdump : options.memoryDump = some path)
    (place : s.folder.leadsTo path = .file names) :
    ∃ s', conclude surroundings options last (some (.ok halt)) s = .ok () s' ∧
      s'.folder.leadsTo path = .file names ∧ s'.folder.read? path = some last.memory.toBytes := by
  rw [conclude, hdump]
  obtain ⟨s₁, hhalted, hs₁, -⟩ := exists_report
    (Status.message (styleOf surroundings options) .cyan "Halted" halt.text) s
  obtain ⟨s₂, hwrite, hread, hleads⟩ := exists_writeFile (hs₁ ▸ place) last.memory.toBytes
  obtain ⟨s₃, hsaved, hs₃, -⟩ := exists_report
    (Status.fileMessage (styleOf surroundings options) .green "Saved" path) s₂
  refine ⟨s₃, ?_, ?_, hs₃ ▸ hread⟩
  · rw [bind_of_ok hhalted, Option.forM, bind_of_ok hwrite, hsaved]
  · rw [hs₃, hleads, hs₁, place]

/-- A program that was loaded and halts leaves its memory in the file that was asked for. -/
theorem run_dumps (hload : load surroundings options s = .ok (symbols, machine, goal) ready)
    (hhalts : machine.run symbols fuel = (last, some (.ok halt)))
    (hdump : options.memoryDump = some path) (place : ready.folder.leadsTo path = .file names) :
    ∃ s', run surroundings fuel options s = .ok () s' ∧
      s'.folder.leadsTo path = .file names ∧ s'.folder.read? path = some last.memory.toBytes := by
  obtain ⟨s₁, hrunning, hs₁, -⟩ := exists_report
    (Status.message (styleOf surroundings options) .green "Running" "loaded image") ready
  obtain ⟨s₂, hprint, hs₂⟩ := exists_print (outputShown last goal) s₁
  obtain ⟨s₃, hshow, hs₃, -⟩ := exists_report
    (eventsShown (styleOf surroundings options) goal machine.tracing last.journal) s₂
  obtain ⟨s₄, htrace, hs₄⟩ : ∃ s₄, options.traceFile.forM (saveTrace last) s₃ = .ok () s₄ ∧
      s₄.folder.leadsTo = s₃.folder.leadsTo := by
    cases options.traceFile with
    | none => exact ⟨s₃, rfl, rfl⟩
    | some path => exact exists_saveTrace last path s₃
  -- The dump is written last, so nothing that was written before matters.
  have place₄ : s₄.folder.leadsTo path = .file names := by
    rw [hs₄, hs₃, hs₂, hs₁, place]
  obtain ⟨s', hconclude, hs'⟩ := exists_conclude hdump place₄
  refine ⟨s', ?_, hs'⟩
  rw [run, bind_of_ok hload]
  dsimp only
  rw [bind_of_ok hrunning, hhalts]
  dsimp only
  rw [bind_of_ok hprint, bind_of_ok hshow, bind_of_ok htrace, hconclude]

end Dump

/-! ### The main result -/

/-- **Images and memory dumps go there and back.** Bytes are an image if and only if there is an
even number of them and no more than 65536. An odd number is reported as not aligned, however large
it is, and an even number that is larger as too large. The bytes of a loaded image are those it was
made of, and zeros behind them up to the end of memory.

The bytes of a memory, whether it was loaded, overridden or left behind by a run, are 65536. They
are an image, and loading it gives the memory back.

So when a program that was loaded by `run` halts, and its memory is asked for in a file, then the
command succeeds, the file holds the bytes of the final memory, and what is read from it as an image
loads to the final memory. -/
theorem round_trip :
    (∀ bytes : Array UInt8,
      ((∃ image, Image.ofBytes bytes = .ok image) ↔ Even bytes.size ∧ bytes.size ≤ 65536) ∧
        (Odd bytes.size → Image.ofBytes bytes = .error (.misaligned bytes.size)) ∧
        (Even bytes.size → 65536 < bytes.size →
          Image.ofBytes bytes = .error (.tooLarge (bytes.size / 2))) ∧
        ∀ image, Image.ofBytes bytes = .ok image →
          (Memory.ofImage image).toBytes =
            bytes.toList ++ List.replicate (65536 - bytes.size) 0) ∧
      (∀ memory : Memory, memory.toBytes.length = 65536 ∧
        ∃ image, Image.ofBytes memory.toBytes.toArray = .ok image ∧
          Memory.ofImage image = memory) ∧
      ∀ (surroundings : Surroundings) (options : RunOptions) (fuel : Nat) (s ready : Session)
        (symbols : SymbolTable) (machine last : Machine) (goal : Option Place) (halt : Halt)
        (path : String) (names : List String),
        load surroundings options s = .ok (symbols, machine, goal) ready →
        machine.run symbols fuel = (last, some (.ok halt)) →
        options.memoryDump = some path → ready.folder.leadsTo path = .file names →
        ∃ s', run surroundings fuel options s = .ok () s' ∧
          s'.folder.read? path = some last.memory.toBytes ∧
          ∃ image, readImage path s' = .ok image s' ∧ Memory.ofImage image = last.memory := by
  refine ⟨fun bytes => ?_, fun memory => ?_, ?_⟩
  · exact ⟨Image.exists_ofBytes_iff, Image.ofBytes_of_odd, Image.ofBytes_of_large,
      fun _ => Memory.toBytes_ofImage⟩
  · exact ⟨memory.length_toBytes, memory.toImage, memory.ofBytes_toBytes, memory.ofImage_toImage⟩
  · intro surroundings options fuel s ready symbols machine last goal halt path names hload hhalts
      hdump place
    obtain ⟨s', hrun, place', hread⟩ := run_dumps hload hhalts hdump place
    exact ⟨s', hrun, hread, _, readImage_of_read? place' hread last.memory.ofBytes_toBytes,
      last.memory.ofImage_toImage⟩

/-- A store by a machine with a tracer that is switched off. The switch is polled for the line of
the instruction, for its remark and for the registers. -/
private theorem step_store_of_off {m : Machine} {symbols : SymbolTable} {address source : Operand}
    (hfetch : m.fetch = .ok (.store address source, 3)) (htracer : m.tracer = some {})
    (htracing : m.tracing = false) (hholds : Memory.Holds (m.core.value address)) :
    Machine.step symbols m = .ok ⟨none, m.pc + 3⟩
      { m with
        memory := m.memory.put (m.core.value address) (m.core.value source)
        pc := m.pc + 3
        tracer := some { polls := 3 } } := by
  obtain ⟨memory, registers, stack, pc, input, output, haltAt, tracer, tracing, journal⟩ := m
  cases htracer
  cases htracing
  rw [Machine.step_apply, hfetch]
  simp only [Instruction.effect, Memory.write, if_pos hholds]
  rfl

/-- A program that stores `0x0102` behind itself and halts. -/
def storeImage : Image := ⟨#[16, 4, 258, 0], by decide⟩

/-- A session with this program in the file `p`. -/
def storeSession : Session where
  folder := ⟨[(["p"], storeImage.words.toList.flatMap Image.bytesOfWord)], fun path => .file [path]⟩
  input := .ofBytes []

/-- Runs the file `p` and saves the memory in the file `d`. -/
def dumpOptions : RunOptions where
  image := "p"
  symbols := none
  start := none
  haltAt := none
  registers := none
  overrides := none
  memoryDump := some "d"
  verbose := false
  traceFile := none
  dumpsRegisters := false
  minimal := false

/-- Surroundings without anything special. -/
def plainSurroundings : Surroundings :=
  ⟨storeSession.folder, storeSession.input, false, false, false⟩

/-- The machine that is to run the program. -/
def storeMachine : Machine := { Machine.ofImage storeImage with tracer := some {} }

private theorem exists_load_store :
    ∃ ready, load plainSurroundings dumpOptions storeSession =
        .ok (.empty, storeMachine, none) ready ∧
      ready.folder.leadsTo "d" = .file ["d"] := by
  obtain ⟨s₁, hreport, hs₁, hinput⟩ := exists_report
    (Status.fileMessage (styleOf plainSurroundings dumpOptions) .green "Loading" dumpOptions.image)
    storeSession
  have hsymbols : readSymbols dumpOptions.symbols storeSession = .ok .empty storeSession := rfl
  have place (path : String) : s₁.folder.leadsTo path = .file [path] := by
    rw [hs₁]
    rfl
  have hread : s₁.folder.read? dumpOptions.image =
      some (storeImage.words.toList.flatMap Image.bytesOfWord) := by
    rw [hs₁]
    rfl
  have himage := readImage_of_read? (place _) hread storeImage.ofBytes_flatMap
  refine ⟨s₁, ?_, place _⟩
  have hmachine : storeMachine = { storeMachine with input := s₁.input } := by
    rw [hinput]
    rfl
  rw [load, bind_of_ok hsymbols, bind_of_ok hreport, bind_of_ok himage, hmachine]
  rfl

/-- The machine when it has stored. -/
def storedMachine : Machine :=
  { storeMachine with
    memory := storeMachine.memory.put (storeMachine.core.value (.literal 4))
      (storeMachine.core.value (.literal 258))
    pc := storeMachine.pc + 3
    tracer := some { polls := 3 } }

private theorem step_storeMachine :
    Machine.step .empty storeMachine = .ok ⟨none, 3⟩ storedMachine := by
  have hmemory : storeMachine.memory = .ofImage storeImage := rfl
  have hfetch : storeMachine.fetch = .ok (.store (.literal 4) (.literal 258), 3) :=
    (Machine.fetch_of_image hmemory (Nat.le_refl 4)).trans rfl
  exact step_store_of_off hfetch rfl rfl (by decide : Memory.Holds 4)

private theorem exists_run_store :
    ∃ last, storeMachine.run .empty 2 = (last, some (.ok ⟨3, .instruction⟩)) ∧
      last.memory = storeMachine.memory.put 4 258 := by
  have hfetch : storedMachine.fetch = .ok (.halt, 1) := by
    have hmemory : storedMachine.memory = (Memory.ofImage storeImage).replay [(4, 258)] := rfl
    refine Machine.fetch_of_decode hmemory rfl fun store hstore => .inr ?_
    obtain rfl := List.mem_singleton.mp hstore
    decide
  have hstep : ∃ m', Machine.step .empty storedMachine = .ok ⟨some .instruction, 4⟩ m' ∧
      m'.haltAt = none ∧ m'.output.flushes m'.output.flushed = true ∧
      (Machine.flush.after m').memory = storedMachine.memory := by
    rw [Machine.step_apply, hfetch]
    exact ⟨_, rfl, rfl, rfl, rfl⟩
  obtain ⟨m', hstep, hhaltAt, hflushes, hmemory⟩ := hstep
  have hhalt : m'.haltReason? storedMachine.pc ⟨some .instruction, 4⟩ = some .instruction :=
    Machine.haltReason?_of_haltAt_none hhaltAt _ _
  have hnone : storedMachine.haltReason? storeMachine.pc ⟨none, 3⟩ = none :=
    Machine.haltReason?_of_haltAt_none rfl _ _
  have hloop : Machine.loop .empty 2 storeMachine = (m', some (.ok ⟨3, .instruction⟩)) :=
    (Machine.loop_succ_of_none step_storeMachine hnone 1).trans
      (Machine.loop_succ_of_halt hstep hhalt 0)
  exact ⟨_, Machine.run_of_loop_ok hloop hflushes, hmemory⟩

/-- The dump of a program that stores is an image with the stored word in it. -/
theorem round_trip_store :
    ∃ ready last s' image, load plainSurroundings dumpOptions storeSession =
        .ok (.empty, storeMachine, none) ready ∧
      storeMachine.run .empty 2 = (last, some (.ok ⟨3, .instruction⟩)) ∧
      run plainSurroundings 2 dumpOptions storeSession = .ok () s' ∧
      s'.folder.read? "d" = some last.memory.toBytes ∧ readImage "d" s' = .ok image s' ∧
      Memory.ofImage image = last.memory ∧ (Memory.ofImage image).read 4 = .ok 258 := by
  obtain ⟨ready, hload, place⟩ := exists_load_store
  obtain ⟨last, hhalts, hmemory⟩ := exists_run_store
  obtain ⟨-, -, hdumps⟩ := round_trip
  obtain ⟨s', hrun, hfile, image, hread, himage⟩ :=
    hdumps plainSurroundings dumpOptions 2 storeSession ready .empty storeMachine last none _ "d"
      ["d"] hload hhalts rfl place
  refine ⟨ready, last, s', image, hload, hhalts, hrun, hfile, hread, himage, ?_⟩
  rw [himage, hmemory, Memory.read_put (by decide), if_pos rfl]

end Session

end WordMachine.Command
