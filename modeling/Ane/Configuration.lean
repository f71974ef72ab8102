import Ane.EngineRuns

/-! The configuration of an engine: the enable bit, the priorities of the queues and the
interrupt masks. Enabling writes it and nothing else overwrites it, so it stands at every
push, also when the registers are lost with the power in between. -/
namespace Ane.TaskManager

/-- Writes to registers, one after another. -/
def Engine.writeAll (e : Engine) (words : List (Nat × UInt32)) : Engine :=
  words.foldl (fun e w => e.writel w.2 w.1) e

/-- The bits `bit` of register `on` are set, and the listed registers hold their words. -/
structure Configured (on : Nat) (bit : UInt32) (words : List (Nat × UInt32)) (regs : RegFile) :
    Prop where
  enabled : regs on &&& bit = bit
  words : ∀ w ∈ words, regs w.1 = w.2

section Words
variable {on : Nat} {bit : UInt32} {words : List (Nat × UInt32)} {regs regs' : RegFile}

theorem writeAll_pushes (e : Engine) (words : List (Nat × UInt32)) :
    (e.writeAll words).pushes = e.pushes := by
  induction words generalizing e with
  | nil => rfl
  | cons w words ih => exact ih (e.writel w.2 w.1)

theorem writeAll_other (e : Engine) {a : Nat} (away : a ∉ words.map Prod.fst) :
    (e.writeAll words).regs a = e.regs a := by
  induction words generalizing e with
  | nil => rfl
  | cons w words ih =>
    simp only [List.map_cons, List.mem_cons, not_or] at away
    exact (ih (e.writel w.2 w.1) away.2).trans
      ((Engine.writel_regs e w.2 w.1 a).trans (if_neg away.1))

theorem writeAll_words (e : Engine) (apart : (words.map Prod.fst).Nodup) :
    ∀ w ∈ words, (e.writeAll words).regs w.1 = w.2 := by
  induction words generalizing e with
  | nil => simp
  | cons first words ih =>
    obtain ⟨fresh, apart⟩ := List.nodup_cons.mp apart
    intro w mem
    obtain rfl | later := List.mem_cons.mp mem
    · exact (writeAll_other (e.writel w.2 w.1) fresh).trans
        ((Engine.writel_regs e w.2 w.1 w.1).trans (if_pos rfl))
    · exact ih (e.writel first.2 first.1) apart w later

/-- Turning the bits on and writing the words configures. -/
theorem configured_writeAll (e : Engine) (apart : (on :: words.map Prod.fst).Nodup) :
    Configured on bit words ((e.writel (e.regs on ||| bit) on).writeAll words).regs where
  enabled := by
    rw [writeAll_other _ (List.nodup_cons.mp apart).1, Engine.writel_regs, if_pos rfl]
    rw [← UInt32.toBitVec_inj]
    ext i
    simp only [UInt32.toBitVec_or, UInt32.toBitVec_and, BitVec.getElem_or, BitVec.getElem_and]
    cases (e.regs on).toBitVec[i] <;> cases bit.toBitVec[i] <;> rfl
  words := writeAll_words _ (List.nodup_cons.mp apart).2

theorem Configured.kept (h : Configured on bit words regs)
    (same : ∀ a ∈ on :: words.map Prod.fst, regs' a = regs a) : Configured on bit words regs' where
  enabled := by
    rw [same on (List.mem_cons_self)]
    exact h.enabled
  words := by
    intro w mem
    rw [same w.1 (List.mem_cons_of_mem _ (List.mem_map_of_mem mem))]
    exact h.words w mem

/-- What is configured is not changed by configuring it again. -/
theorem Configured.again {e : Engine} (h : Configured on bit words e.regs)
    (apart : (on :: words.map Prod.fst).Nodup) :
    ((e.writel (e.regs on ||| bit) on).writeAll words).regs = e.regs := by
  have set_ : e.regs on ||| bit = e.regs on := by
    rw [← h.enabled, ← UInt32.toBitVec_inj]
    ext i
    simp only [UInt32.toBitVec_or, UInt32.toBitVec_and, BitVec.getElem_or, BitVec.getElem_and]
    cases (e.regs on).toBitVec[i] <;> cases bit.toBitVec[i] <;> rfl
  ext1 a
  by_cases listed : a ∈ words.map Prod.fst
  · obtain ⟨w, mem, rfl⟩ := List.mem_map.mp listed
    exact (writeAll_words _ (List.nodup_cons.mp apart).2 w mem).trans (h.words w mem).symm
  · rw [writeAll_other _ listed, Engine.writel_regs, set_]
    split
    · next here => rw [here]
    · rfl

end Words

namespace H13

def configuration : List (Nat × UInt32) :=
  (List.range aneTqCount).map (fun qid => (aneTqBase + tqPrty qid, tqPrtyTable.getD qid 0)) ++
    [(aneTmBase + tmIrqEn1, 0x4000000), (aneTmBase + tmIrqEn2, 0x6)]

theorem configuration_apart : ((aneTmBase + tmTqEn) :: configuration.map Prod.fst).Nodup := by
  decide

abbrev Ready (regs : RegFile) : Prop := Configured (aneTmBase + tmTqEn) 0x1000 configuration regs

end H13

namespace H14

def configuration : List (Nat × UInt32) :=
  (List.range aneTqCount).flatMap
      (fun qid => [(tqPrty qid, tqPrtyTable.getD qid 0), (tqUnk0 qid, 0x201)]) ++
    [(tmIrqEn1, 0x4000000), (tmIrqEn2, 0x6)]

theorem aneH14TmEnable_eq (e : Engine) :
    aneH14TmEnable e = (e.writel (e.regs tmTqEn ||| 0x2000) tmTqEn).writeAll configuration := rfl

theorem configuration_apart : (tmTqEn :: configuration.map Prod.fst).Nodup := by
  decide

abbrev Ready (regs : RegFile) : Prop := Configured tmTqEn 0x2000 configuration regs

theorem aneH14TmEnable_ready (e : Engine) : Ready (aneH14TmEnable e).regs := by
  rw [aneH14TmEnable_eq]
  exact configured_writeAll e configuration_apart

/-- The registers written for a request. -/
def launchWords (req : AneRequest) : List (Nat × UInt32) :=
  [(tmAddr, lower32Bits req.btspIova), (tmAddr + 0x4, upper32Bits req.btspIova),
    (tmUnk08, lower32Bits req.tdSize.toUInt64), (tmUnk08 + 0x4, upper32Bits req.tdSize.toUInt64),
    (tmUnk10, 0x151), (tmUnk14, req.tdCount), (tmPush, 0)]

def launchRegs : List Nat := [tmAddr, tmAddr + 0x4, tmUnk08, tmUnk08 + 0x4, tmUnk10, tmUnk14, tmPush]

theorem launch_apart : ∀ a ∈ tmTqEn :: configuration.map Prod.fst, a ∉ launchRegs := by
  decide

end H14

end Ane.TaskManager

namespace Ane.Driver
open PageTable RangeAllocator Runs TaskManager

section H13
open H13
variable {e : Engine} {req : AneRequest}

end H13

theorem submitExecute_h14 {dev : Device} (hw : dev.hw = aneHwH14) (req : AneRequest)
    (status : Status) :
    (submitExecute dev req status).1.engine =
      (dev.engine.writeAll (H14.launchWords req)).pushed := by
  unfold submitExecute
  rw [hw]
  rfl

section H14
open H14

/-- What an H14 engine sees at the push of a request: the words of the request in the launch
registers, and the rest as it was at the start. No address of a buffer is among them. -/
structure Launched (regs : RegFile) (req : AneRequest) (snap : RegFile) : Prop where
  words : ∀ w ∈ launchWords req, snap w.1 = w.2
  rest : ∀ a ∉ launchRegs, snap a = regs a

/-- An H14 engine that has been given the requests `reqs` in turn. -/
structure Relayed (regs : RegFile) (reqs : List AneRequest) (e : Engine) : Prop where
  pushes : List.Forall₂ (Launched regs) reqs.reverse e.pushes
  rest : ∀ a ∉ launchRegs, e.regs a = regs a
  ready : Ready e.regs

theorem launchRegs_nodup : launchRegs.Nodup := by
  decide

theorem Relayed.submitted {regs : RegFile} {reqs : List AneRequest} {e : Engine}
    (h : Relayed regs reqs e) (req : AneRequest) :
    Relayed regs (reqs ++ [req]) (e.writeAll (launchWords req)).pushed := by
  have other (a : Nat) (away : a ∉ launchRegs) :
      (e.writeAll (launchWords req)).regs a = e.regs a := writeAll_other e away
  have rest (a : Nat) (away : a ∉ launchRegs) : (e.writeAll (launchWords req)).regs a = regs a :=
    (other a away).trans (h.rest a away)
  refine ⟨?_, rest, h.ready.kept fun a mem => other a (launch_apart a mem)⟩
  rw [List.reverse_append]
  refine .cons ⟨writeAll_words e launchRegs_nodup, rest⟩ ?_
  rw [writeAll_pushes]
  exact h.pushes

theorem Relayed.enabled {regs : RegFile} {reqs : List AneRequest} {e : Engine}
    (h : Relayed regs reqs e) : Relayed regs reqs (aneH14TmEnable e) := by
  have same : (aneH14TmEnable e).regs = e.regs := h.ready.again configuration_apart
  have pushes : (aneH14TmEnable e).pushes = e.pushes := writeAll_pushes _ configuration
  refine ⟨?_, ?_, ?_⟩
  · rw [pushes]
    exact h.pushes
  · rw [same]
    exact h.rest
  · rw [same]
    exact h.ready

theorem Relayed.run {regs : RegFile} {reqs : List AneRequest} {dev : Device} (inv : Inv dev)
    (hw : dev.hw = aneHwH14) (h : Relayed regs reqs dev.engine) (ops : List Op) :
    Relayed regs (reqs ++ requests dev ops) (Runs.run exec dev ops).engine := by
  induction ops generalizing dev reqs with
  | nil => rwa [requests, List.append_nil]
  | cons op ops ih =>
    rw [requests, ← List.append_assoc]
    refine ih (inv.exec op) ((exec_hw inv op).trans hw) ?_
    have executed := exec_executed inv op
    generalize accepted dev op = new at executed ⊢
    cases executed with
    | same eq => rwa [eq, List.append_nil]
    | enabled eq =>
      rw [eq, hw, List.append_nil]
      exact h.enabled
    | submitted status qid eq =>
      rw [eq, submitExecute_h14 hw]
      exact h.submitted _

/-- On an H14 every accepted submission is pushed once, in the order of the history. The engine
sees the boot address, the size and the count of the request; its buffers never reach it. -/
theorem h14_pushes_requests (regs : RegFile) (ops : List Op) :
    let start := probed aneHwH14 regs
    List.Forall₂ (Launched start.engine.regs) (requests start ops).reverse
      (run exec start ops).engine.pushes := by
  intro start
  have pushes : start.engine.pushes = [] := writeAll_pushes _ configuration
  have fresh : Relayed start.engine.regs [] start.engine := by
    refine ⟨?_, fun _ _ => rfl, aneH14TmEnable_ready ⟨regs, []⟩⟩
    rw [pushes]
    exact .nil
  exact (fresh.run (inv_probed aneHwH14 regs) rfl ops).pushes

end H14

end Ane.Driver
