/-
  Ksight.Wirefisher.Rules — from a module's configuration to its rule map
  (src/net/wirefisher/src/process_module.cpp, ip_pro_port_module.cpp, cgroup_module.cpp,
  eth_module.cpp: `get_rule`, and the `load_…_module` that calls it; include/parse.h:
  `parse_gress`, `parse_ip`, `parse_protocol`, `parse_flag`).

  The nodes of the configuration are those of a YAML library, whose functions are parameters
  (`Yaml`): any of them that reads may throw. `get_rule` returns -1 where the section is
  missing or a field cannot be parsed, `false` where the rule map is not found or not
  updated, and `true`. The loads take `false` for a failure; -1 is not `false`.

  The law (`Enforced`): a load that returns 0 has parsed its rule and left it in the map.
  `enforced_iff`: the law holds of a load if and only if the rule can be parsed, or the load
  does not succeed for another reason (`Load.Safe`). The cgroup module alone tests for its
  section beforehand. A port module without a rule is loaded and limits nothing
  (`a_missing_rule_is_loaded`).

  The exceptions that leave a load are those that end the program in
  `Ksight.Wirefisher.Modules` (`throws_iff`).
-/

import Ksight.Wirefisher.FourLimiters
import Ksight.Wirefisher.Modules
import Ksight.Wirefisher.Parse

namespace Ksight.Wirefisher

open Ksight.Lib

/-! ## The parsers -/

/-- What the modules use of the YAML library. A node that is not there is a node that is not
    `defined`; the library's exceptions are runtime errors. -/
structure Yaml (N : Type) where
  subscript : N → String → Except ParseError N
  defined : N → Bool
  isNull : N → Bool
  isScalar : N → Bool
  tag : N → String
  asString : N → Except ParseError (List Char)
  asUInt16 : N → Except ParseError UInt16
  asUInt32 : N → Except ParseError UInt32
  asBool : N → Except ParseError Bool

def parseGress (gressStr : List Char) : Except ParseError UInt8 :=
  if gressStr = "ingress".toList then .ok 0
  else if gressStr = "egress".toList then .ok 1
  else .error (.runtimeError ("Invalid gress value: " ++ String.ofList gressStr))

/-- A number from 0 to 255 without leading zeros. -/
def octet (part : List Char) : Option UInt8 :=
  if part ≠ [] ∧ part.all Char.isDigit = true ∧ (part.length = 1 ∨ part.head? ≠ some '0') ∧
      number part < 256 then
    some (.ofNat (number part))
  else none

/-- `inet_pton` of a text that ends at its first zero. -/
def inetPton (text : List Char) : Option UInt32 :=
  match (text.takeWhile (· ≠ '\x00')).splitOn '.' with
  | [a, b, c, d] => do return le32 (← octet a) (← octet b) (← octet c) (← octet d)
  | _ => none

def parseIp (ipStr : List Char) : Except ParseError UInt32 :=
  match inetPton ipStr with
  | some addr => .ok (bswap32 addr)
  | none => .error (.runtimeError ("Invalid IPv4 address: " ++ String.ofList ipStr))

/-- `stoi`, `none` where it throws: spaces, a sign and digits, and then anything. -/
def stoi (text : List Char) : Option Int :=
  let text := text.dropWhile fun c => c = ' ' ∨ '\t' ≤ c ∧ c ≤ '\r'
  let (negative, text) :=
    match text with
    | '-' :: text => (true, text)
    | '+' :: text => (false, text)
    | text => (false, text)
  let digits := text.takeWhile Char.isDigit
  let n : Int := if negative then -number digits else number digits
  if digits ≠ [] ∧ -2 ^ 31 ≤ n ∧ n < 2 ^ 31 then some n else none

def parseProtocol (protoStr : List Char) : Except ParseError UInt8 :=
  if protoStr = "TCP".toList ∨ protoStr = "tcp".toList then .ok ipprotoTcp
  else if protoStr = "UDP".toList ∨ protoStr = "udp".toList then .ok ipprotoUdp
  else
    match (stoi protoStr).filter fun v => 0 ≤ v ∧ v ≤ 255 with
    | some v => .ok (.ofNat v.toNat)
    | none => .error (.runtimeError ("Invalid protocol: " ++ String.ofList protoStr))

variable {N : Type} (y : Yaml N)

/-- The test for a node that is not there. -/
def missing (node : N) : Bool := !y.defined node || y.isNull node

def parseFlag (node : N) : Except ParseError Bool :=
  if missing y node then .error (.runtimeError "Missing flag node")
  else
    let bool :=
      if y.isScalar node && (y.tag node = "!bool" || y.tag node = "") then (y.asBool node).toOption else none
    match bool with
    | some b => .ok b
    | none => do
      let s := (← y.asString node).map Char.toLower
      if s = "enable".toList ∨ s = "enabled".toList ∨ s = "true".toList then return true
      if s = "disable".toList ∨ s = "disabled".toList ∨ s = "false".toList then return false
      throw (.runtimeError ("Invalid flag value: " ++ String.ofList s))

/-- A field's text, parsed. -/
def parsed {α : Type} (parse : List Char → Except ParseError α) (node : N) (key : String) :
    Except ParseError α := do
  parse (← y.asString (← y.subscript node key))

end Ksight.Wirefisher

namespace Ksight.Wirefisher.Modules

open Ksight.Lib

variable {N : Type} (y : Yaml N)

/-! ## `get_rule` -/

/-- Whether the rule map is found and updated, and the results of the other calls of a load. -/
structure Results (κ : Type) where
  ok : κ → Bool
  mapFound : Bool
  updated : Bool

section
variable {R κ : Type} {cap : Nat}

/-- A module's section of the configuration, if there is one. -/
def sectionOf (key : String) (moduleNode : N) : Option N :=
  (y.subscript moduleNode key).toOption.filter fun node => !missing y node

/-- `get_rule` of a module with that section and those fields. The first subscript is not
    in its `try`. -/
def getRuleWith (key : String) (fields : N → Except ParseError R) (r : Results κ) (moduleNode : N)
    (rules : BoundedMap UInt32 R cap) : Except ParseError (Int × BoundedMap UInt32 R cap) := do
  let node ← y.subscript moduleNode key
  if missing y node then return (-1, rules)
  match fields node with
  | .error _ => return (-1, rules)
  | .ok rule =>
    if !r.mapFound then return (0, rules)
    match if r.updated then rules.update 0 rule else none with
    | none => return (0, rules)
    | some rules => return (1, rules)

/-- A load in which the call `c` is `get_rule`, whose exceptions it does not catch. -/
def loadWith [DecidableEq κ] (c : κ) (stages : List (Stage κ St)) (ok : κ → Bool)
    (rule : Except ParseError (Int × BoundedMap UInt32 R cap)) (rules : BoundedMap UInt32 R cap) :
    Except ParseError (Int × BoundedMap UInt32 R cap) :=
  if (stages.takeWhile fun t => t.call ≠ c).all fun t => ok t.call then do
    let (result, rules) ← rule
    return ((runStages (Function.update ok c (decide (result ≠ 0))) stages .init).1, rules)
  else .ok (-1, rules)

end

namespace Process

abbrev RuleMap := BoundedMap UInt32 Wirefisher.Process.ProcessRule Wirefisher.Process.maxRules

def fields (node : N) : Except ParseError Wirefisher.Process.ProcessRule := do
  let targetPid ← y.asUInt32 (← y.subscript node "target_pid")
  let rateBps ← parsed y parseRateBps node "rate_bps"
  let gress ← parsed y parseGress node "gress"
  let timeScale ← parsed y parseTimeScale node "time_scale"
  return { targetPid, rateBps, gress, timeScale }

def getRule (r : Results Call) (moduleNode : N) (rules : RuleMap) : Except ParseError (Int × RuleMap) :=
  getRuleWith y "process_rule" (fields y) r moduleNode rules

def load (r : Results Call) (moduleNode : N) (rules : RuleMap) : Except ParseError (Int × RuleMap) :=
  loadWith .getRule loadNetfilterModule r.ok (getRule y r moduleNode rules) rules

end Process

namespace Port

abbrev RuleMap := BoundedMap UInt32 Wirefisher.Port.IpProPortRule Wirefisher.Port.maxRules

/-- The bit fields take the low bits of what is stored in them. -/
def fields (node : N) : Except ParseError Wirefisher.Port.IpProPortRule := do
  let targetIp ← parsed y parseIp node "target_ip"
  let targetPort ← y.asUInt16 (← y.subscript node "target_port")
  let targetProtocol ← parsed y parseProtocol node "target_protocol"
  let rateBps ← parsed y parseRateBps node "rate_bps"
  let timeScale ← parsed y parseTimeScale node "time_scale"
  let gress ← parsed y parseGress node "gress"
  let ipEnable ← parseFlag y (← y.subscript node "ip_enable")
  let portEnable ← parseFlag y (← y.subscript node "port_enable")
  let protocolEnable ← parseFlag y (← y.subscript node "protocol_enable")
  return {
    targetIp, targetPort, targetProtocol, rateBps, timeScale
    gress := .ofNat 1 gress.toNat
    ipEnable := .ofNat 1 ipEnable.toNat
    portEnable := .ofNat 1 portEnable.toNat
    protocolEnable := .ofNat 5 protocolEnable.toNat }

def getRule (r : Results Call) (moduleNode : N) (rules : RuleMap) : Except ParseError (Int × RuleMap) :=
  getRuleWith y "ip_pro_port_rule" (fields y) r moduleNode rules

def load (r : Results Call) (moduleNode : N) (rules : RuleMap) : Except ParseError (Int × RuleMap) :=
  loadWith .getRule loadNetfilterModule r.ok (getRule y r moduleNode rules) rules

end Port

namespace Cgroup

abbrev RuleMap := BoundedMap UInt32 Wirefisher.Cgroup.CgroupRule Wirefisher.Cgroup.maxRules

/-- `target_cgroup` is the path of the cgroup that is opened later. -/
def fields (node : N) : Except ParseError Wirefisher.Cgroup.CgroupRule := do
  let _ ← y.asString (← y.subscript node "target_cgroup")
  let rateBps ← parsed y parseRateBps node "rate_bps"
  let timeScale ← parsed y parseTimeScale node "time_scale"
  let gress ← parsed y parseGress node "gress"
  return { rateBps, gress, timeScale }

def getRule (r : Results Call) (moduleNode : N) (rules : RuleMap) : Except ParseError (Int × RuleMap) :=
  getRuleWith y "cgroup_rule" (fields y) r moduleNode rules

/-- The load tests for the section itself, after `getuid`. -/
def load (r : Results Call) (moduleNode : N) (rules : RuleMap) : Except ParseError (Int × RuleMap) :=
  if !r.ok .getuid then .ok (-1, rules)
  else do
    let node ← y.subscript moduleNode "cgroup_rule"
    loadWith .getRule loadCgroupModule (Function.update r.ok .cgroupRule (!missing y node))
      (getRule y r moduleNode rules) rules

end Cgroup

namespace Eth

abbrev RuleMap := BoundedMap UInt32 Wirefisher.Eth.EthRule Wirefisher.Eth.maxRules

/-- `target_if` is the name of the interface, whose index may be 0 for none. -/
def fields (node : N) : Except ParseError Wirefisher.Eth.EthRule := do
  let _ ← y.asString (← y.subscript node "target_if")
  let rateBps ← parsed y parseRateBps node "rate_bps"
  let timeScale ← parsed y parseTimeScale node "time_scale"
  let gress ← parsed y parseGress node "gress"
  return { rateBps, timeScale, gress }

def getRule (r : Results Call) (moduleNode : N) (rules : RuleMap) : Except ParseError (Int × RuleMap) :=
  getRuleWith y "eth_rule" (fields y) r moduleNode rules

def load (r : Results Call) (existE existI : Bool) (moduleNode : N) (rules : RuleMap) :
    Except ParseError (Int × RuleMap) :=
  loadWith .getRule (loadEthModule existE existI) r.ok (getRule y r moduleNode rules) rules

end Eth

/-! ## The law -/

section
variable {R κ : Type} {cap : Nat}

/-- The rule of a module's configuration, if there is one that can be parsed. -/
def configured (key : String) (fields : N → Except ParseError R) (moduleNode : N) : Option R :=
  (sectionOf y key moduleNode).bind fun node => (fields node).toOption

/-- The law: where the load returns 0, the rule has been parsed and is in the map. -/
def Enforced (loaded : Except ParseError (Int × BoundedMap UInt32 R cap)) (rule : Option R) : Prop :=
  ∀ rules, loaded = .ok (0, rules) → ∃ r, rule = some r ∧ rules.lookup 0 = some r

/-- One of the calls fails, other than `own`. -/
def FailsApartFrom (own : List κ) (stages : List (Stage κ St)) (ok : κ → Bool) : Prop :=
  ∃ t ∈ stages, t.call ∉ own ∧ ok t.call = false

end

/-- The results of the calls of one module's load. -/
inductive Load
  | process (r : Results Process.Call)
  | port (r : Results Port.Call)
  | cgroup (r : Results Cgroup.Call)
  | eth (r : Results Eth.Call) (existE existI : Bool)

/-- The law for the load of a module with that configuration. -/
def Load.Enforced (moduleNode : N) : Load → Prop
  | .process r =>
    Modules.Enforced (Process.load y r moduleNode .empty)
      (configured y "process_rule" (Process.fields y) moduleNode)
  | .port r =>
    Modules.Enforced (Port.load y r moduleNode .empty)
      (configured y "ip_pro_port_rule" (Port.fields y) moduleNode)
  | .cgroup r =>
    Modules.Enforced (Cgroup.load y r moduleNode .empty)
      (configured y "cgroup_rule" (Cgroup.fields y) moduleNode)
  | .eth r existE existI =>
    Modules.Enforced (Eth.load y r existE existI moduleNode .empty)
      (configured y "eth_rule" (Eth.fields y) moduleNode)

/-- The library throws when the section is looked for. -/
def Throws (key : String) (moduleNode : N) : Prop := (y.subscript moduleNode key).toOption = none

/-- The condition: the rule can be parsed, or the load fails or throws for another reason. For the
    cgroup module a missing section is one. -/
def Load.Safe (moduleNode : N) : Load → Prop
  | .process r =>
    (configured y "process_rule" (Process.fields y) moduleNode).isSome ∨
      Throws y "process_rule" moduleNode ∨
      FailsApartFrom [.getRule] Process.loadNetfilterModule r.ok
  | .port r =>
    (configured y "ip_pro_port_rule" (Port.fields y) moduleNode).isSome ∨
      Throws y "ip_pro_port_rule" moduleNode ∨
      FailsApartFrom [.getRule] Port.loadNetfilterModule r.ok
  | .cgroup r =>
    (configured y "cgroup_rule" (Cgroup.fields y) moduleNode).isSome ∨
      sectionOf y "cgroup_rule" moduleNode = none ∨
      FailsApartFrom [.getRule, .cgroupRule] Cgroup.loadCgroupModule r.ok
  | .eth r existE existI =>
    (configured y "eth_rule" (Eth.fields y) moduleNode).isSome ∨
      Throws y "eth_rule" moduleNode ∨
      FailsApartFrom [.getRule] (Eth.loadEthModule existE existI) r.ok

section
variable {y} {R κ : Type} {cap : Nat} {key : String} {fields : N → Except ParseError R} {r : Results κ}
  {moduleNode : N} {rules : BoundedMap UInt32 R cap}

/-- What `get_rule` returns: -1 for a rule it cannot parse, and otherwise 0, or 1 with the rule
    in the map. -/
theorem getRuleWith_cases (key : String) (fields : N → Except ParseError R) (r : Results κ) (moduleNode : N)
    (rules : BoundedMap UInt32 R cap) :
    Throws y key moduleNode ∧ (∃ e, getRuleWith y key fields r moduleNode rules = .error e) ∨
      ¬ Throws y key moduleNode ∧ configured y key fields moduleNode = none ∧
        getRuleWith y key fields r moduleNode rules = .ok (-1, rules) ∨
      ∃ rule, configured y key fields moduleNode = some rule ∧
        (getRuleWith y key fields r moduleNode rules = .ok (0, rules) ∨
          ∃ rules', getRuleWith y key fields r moduleNode rules = .ok (1, rules') ∧
            rules'.lookup 0 = some rule) := by
  unfold getRuleWith configured sectionOf Throws
  rcases hs : y.subscript moduleNode key with e | node
  · exact .inl ⟨rfl, e, rfl⟩
  · right
    simp only [Except.toOption, Option.filter_some, bind, Except.bind, pure, Except.pure]
    rcases hd : missing y node with _ | _
    · rcases hf : fields node with e | rule
      · left
        simp [hf]
      · right
        refine ⟨rule, by simp [hf], ?_⟩
        rcases hfound : r.mapFound with _ | _
        · left
          simp
        · rcases hu : (if r.updated then rules.update 0 rule else none) with _ | rules'
          · left
            simp [hu]
          · right
            have hupdate : rules.update 0 rule = some rules' := by
              split at hu
              · exact hu
              · cases hu
            exact ⟨rules', by simp [hu], by rw [BoundedMap.lookup_update hupdate, if_pos rfl]⟩
    · left
      simp

/-- A load returns 0 where `get_rule` returns anything but 0 and no other call fails. -/
theorem loadWith_eq_zero [DecidableEq κ] {c : κ} {stages : List (Stage κ St)} {ok : κ → Bool}
    (hc : c ∈ stages.map Stage.call) {rule : Except ParseError (Int × BoundedMap UInt32 R cap)}
    {rules rules' : BoundedMap UInt32 R cap} :
    loadWith c stages ok rule rules = .ok (0, rules') ↔
      ¬ FailsApartFrom [c] stages ok ∧ ∃ n, rule = .ok (n, rules') ∧ n ≠ 0 := by
  have hfails : ¬ FailsApartFrom [c] stages ok ↔ ∀ t ∈ stages, t.call ≠ c → ok t.call = true := by
    simp [FailsApartFrom]
  rw [hfails]
  unfold loadWith
  split
  · rcases rule with e | ⟨n, rules₁⟩
    · simp [bind, Except.bind]
    · have hstages : (∀ t ∈ stages, Function.update ok c (decide (n ≠ 0)) t.call = true) ↔
          (∀ t ∈ stages, t.call ≠ c → ok t.call = true) ∧ n ≠ 0 := by
        obtain ⟨u, hu, hcall⟩ := List.mem_map.mp hc
        constructor
        · intro h
          refine ⟨fun t ht hne => ?_, ?_⟩
          · simpa [Function.update_of_ne hne] using h t ht
          · simpa [hcall] using h u hu
        · rintro ⟨h, hn⟩ t ht
          by_cases e : t.call = c
          · simpa [e] using hn
          · simpa [Function.update_of_ne e] using h t ht e
      simp only [bind, Except.bind, pure, Except.pure, Except.ok.injEq, Prod.mk.injEq, runStages_eq_zero,
        hstages]
      constructor
      · rintro ⟨⟨h, hn⟩, rfl⟩
        exact ⟨h, n, ⟨rfl, rfl⟩, hn⟩
      · rintro ⟨h, _, ⟨rfl, rfl⟩, hn⟩
        exact ⟨⟨h, hn⟩, rfl⟩
  · -- a call before `get_rule` has failed
    rename_i hbefore
    refine iff_of_false (by simp) fun ⟨h, _⟩ => hbefore ?_
    refine List.all_eq_true.mpr fun t ht => h t (List.takeWhile_subset _ ht) ?_
    simpa using List.mem_takeWhile_imp ht

/-- The law of one load. -/
theorem enforced_loadWith [DecidableEq κ] {c : κ} {stages : List (Stage κ St)} {ok : κ → Bool}
    (hc : c ∈ stages.map Stage.call) :
    Enforced (loadWith c stages ok (getRuleWith y key fields r moduleNode rules) rules)
        (configured y key fields moduleNode) ↔
      (configured y key fields moduleNode).isSome ∨ Throws y key moduleNode ∨ FailsApartFrom [c] stages ok := by
  unfold Enforced
  simp only [loadWith_eq_zero hc]
  rcases getRuleWith_cases (y := y) key fields r moduleNode rules with ⟨ht, e, he⟩ | ⟨ht, hnone, hbad⟩ |
    ⟨rule, hsome, hzero | ⟨rules', hone, hlook⟩⟩
  · simp [he, ht]
  · simp only [hbad, hnone, ht]
    by_cases hf : FailsApartFrom [c] stages ok
    · simp [hf]
    · simp [hf]
  · simp [hzero, hsome]
  · simp [hone, hsome, hlook]

end

/-- A loaded module enforces its rule if and only if the rule can be parsed, or the load does not
    succeed for another reason. -/
theorem enforced_iff (y : Yaml N) (moduleNode : N) (l : Load) :
    l.Enforced y moduleNode ↔ l.Safe y moduleNode := by
  cases l with
  | process r => exact enforced_loadWith (by decide)
  | port r => exact enforced_loadWith (by decide)
  | cgroup r =>
    rcases hu : r.ok .getuid with _ | _
    · have hfails : FailsApartFrom [.getRule, .cgroupRule] Cgroup.loadCgroupModule r.ok :=
        ⟨⟨.getuid, id, id⟩, by simp [Cgroup.loadCgroupModule], by decide, hu⟩
      refine iff_of_true (fun rules h => ?_) (.inr (.inr hfails))
      simp [Cgroup.load, hu] at h
    · simp only [Load.Enforced, Load.Safe, Cgroup.load, hu]
      rcases hs : y.subscript moduleNode "cgroup_rule" with e | node
      · refine iff_of_true (fun rules h => ?_) (.inr (.inl (by simp [sectionOf, hs, Except.toOption])))
        simp [bind, Except.bind] at h
      · refine (enforced_loadWith (by decide)).trans (or_congr_right ?_)
        have hthrow : ¬ Throws y "cgroup_rule" moduleNode := by simp [Throws, hs, Except.toOption]
        have hsection : sectionOf y "cgroup_rule" moduleNode = none ↔ missing y node = true := by
          simp [sectionOf, hs, Except.toOption]
        rw [hsection]
        simp only [hthrow, false_or]
        simp [FailsApartFrom, Cgroup.loadCgroupModule, hu]
  | eth r existE existI => exact enforced_loadWith (by simp [Eth.loadEthModule])

/-! ## Exceptions -/

section
variable {y} {R κ : Type} {cap : Nat} {key : String} {fields : N → Except ParseError R} {r : Results κ}
  {moduleNode : N} {rules : BoundedMap UInt32 R cap}

variable (key fields r moduleNode rules) in
theorem getRuleWith_throws :
    (∃ e, getRuleWith y key fields r moduleNode rules = .error e) ↔ Throws y key moduleNode := by
  rcases getRuleWith_cases (y := y) key fields r moduleNode rules with ⟨ht, he⟩ | ⟨ht, -, hbad⟩ |
    ⟨rule, hsome, hok⟩
  · exact iff_of_true he ht
  · exact iff_of_false (by simp [hbad]) ht
  · refine iff_of_false ?_ fun ht => ?_
    · rintro ⟨e, he⟩
      rcases hok with hok | ⟨rules', hok, -⟩ <;> rw [hok] at he <;> cases he
    · rw [configured, sectionOf, ht] at hsome
      cases hsome

/-- A load throws where `get_rule` does, unless a call before it fails. -/
theorem loadWith_throws [DecidableEq κ] {c : κ} {stages : List (Stage κ St)} {ok : κ → Bool} :
    (∃ e, loadWith c stages ok (getRuleWith y key fields r moduleNode rules) rules = .error e) ↔
      Throws y key moduleNode ∧ firstFailure ok (stages.takeWhile fun t => t.call ≠ c) = none := by
  have hbefore : firstFailure ok (stages.takeWhile fun t => t.call ≠ c) = none ↔
      (stages.takeWhile fun t => t.call ≠ c).all fun t => ok t.call := by
    simp [firstFailure]
  rw [hbefore, ← getRuleWith_throws key fields r moduleNode rules]
  unfold loadWith
  split
  · -- the calls before it succeed
    rename_i hall
    rw [and_iff_left hall]
    rcases getRuleWith y key fields r moduleNode rules with e | ⟨n, rules'⟩ <;>
      simp [bind, Except.bind, pure, Except.pure]
  · rename_i hall
    exact iff_of_false (by simp) fun h => hall h.2

theorem hasThrown_runLoad [DecidableEq κ] (c : κ) (stages : List (Stage κ St)) (ok : κ → Bool) (throws : Bool) :
    hasThrown (runLoad c stages ⟨ok, throws⟩).1 = true ↔
      throws = true ∧ firstFailure ok (stages.takeWhile fun t => t.call ≠ c) = none := by
  unfold runLoad
  dsimp only
  split <;> simp_all [hasThrown]

end

/-- The load ends by an exception. -/
def Load.Throws (moduleNode : N) : Load → Prop
  | .process r => ∃ e, Process.load y r moduleNode .empty = .error e
  | .port r => ∃ e, Port.load y r moduleNode .empty = .error e
  | .cgroup r => ∃ e, Cgroup.load y r moduleNode .empty = .error e
  | .eth r existE existI => ∃ e, Eth.load y r existE existI moduleNode .empty = .error e

/-- What `main` sees of the load: whether the library throws when the section is looked for. -/
def Load.hasThrown (throws : Bool) : Load → Bool
  | .process r => Modules.hasThrown (Process.loaded ⟨r.ok, throws⟩).1
  | .port r => Modules.hasThrown (Port.loaded ⟨r.ok, throws⟩).1
  | .cgroup r => Modules.hasThrown (Cgroup.loaded ⟨r.ok, throws⟩).1
  | .eth r existE existI => Modules.hasThrown (Eth.loaded ⟨r.ok, throws⟩ existE existI).1

def Load.sectionKey : Load → String
  | .process _ => "process_rule"
  | .port _ => "ip_pro_port_rule"
  | .cgroup _ => "cgroup_rule"
  | .eth .. => "eth_rule"

/-- The loads that end the program are those whose section the library throws for, unless a call
    before has failed. -/
theorem throws_iff (y : Yaml N) (moduleNode : N) (l : Load) {throws : Bool}
    (ht : throws = true ↔ Modules.Throws y l.sectionKey moduleNode) :
    l.Throws y moduleNode ↔ l.hasThrown throws = true := by
  cases l with
  | process r => rw [Load.Throws, Load.hasThrown, Process.loaded, hasThrown_runLoad, ht]; exact loadWith_throws
  | port r => rw [Load.Throws, Load.hasThrown, Port.loaded, hasThrown_runLoad, ht]; exact loadWith_throws
  | cgroup r =>
    rw [Load.Throws, Load.hasThrown, Cgroup.loaded, hasThrown_runLoad, ht]
    rcases hu : r.ok .getuid with _ | _
    · simp [Cgroup.load, Cgroup.loadCgroupModule, firstFailure, hu]
    · rcases hs : y.subscript moduleNode "cgroup_rule" with e | node
      · simp [Cgroup.load, Cgroup.loadCgroupModule, firstFailure, Load.sectionKey, Throws, hs, hu, Except.toOption,
          bind, Except.bind]
      · -- `get_rule` finds the section again
        have hno : ¬ Throws y "cgroup_rule" moduleNode := by simp [Throws, hs, Except.toOption]
        refine iff_of_false (fun h => ?_) fun h => hno h.1
        simp only [Cgroup.load, hu, hs] at h
        exact hno (loadWith_throws.mp h).1
  | eth r existE existI => rw [Load.Throws, Load.hasThrown, Eth.loaded, hasThrown_runLoad, ht]; exact loadWith_throws

/-! ## Configurations -/

/-- A configuration file's nodes. -/
inductive Doc
  | undefined
  | null
  | scalar (text : String)
  | map (entries : List (String × Doc))

namespace Doc

def subscript : Doc → String → Except ParseError Doc
  | map entries, key => .ok ((entries.lookup key).getD undefined)
  | null, _ => .ok undefined
  | scalar _, _ => .error (.runtimeError "operator[] call on a scalar")
  | undefined, _ => .error (.runtimeError "invalid node")

def text : Doc → Except ParseError (List Char)
  | scalar text => .ok text.toList
  | null => .ok "null".toList
  | _ => .error (.runtimeError "bad conversion")

def asNumber (bound : Nat) (d : Doc) : Except ParseError Nat := do
  let digits ← d.text
  if digits ≠ [] ∧ digits.all Char.isDigit = true ∧ number digits < bound then return number digits
  throw (.runtimeError "bad conversion")

def asBool (d : Doc) : Except ParseError Bool := do
  let s := (← d.text).map Char.toLower
  if s = "y".toList ∨ s = "yes".toList ∨ s = "true".toList ∨ s = "on".toList then return true
  if s = "n".toList ∨ s = "no".toList ∨ s = "false".toList ∨ s = "off".toList then return false
  throw (.runtimeError "bad conversion")

end Doc

/-- The library on such nodes, whose scalars are plain. -/
def docs : Yaml Doc where
  subscript := Doc.subscript
  defined d := match d with | .undefined => false | _ => true
  isNull d := match d with | .null => true | _ => false
  isScalar d := match d with | .scalar _ => true | _ => false
  tag _ := "?"
  asString := Doc.text
  asUInt16 d := (d.asNumber (2 ^ 16)).map UInt16.ofNat
  asUInt32 d := (d.asNumber (2 ^ 32)).map UInt32.ofNat
  asBool := Doc.asBool

/-- The repository's own configuration of the port module. -/
def portSection : Doc :=
  .map [("target_ip", .scalar "192.168.91.129"), ("target_port", .scalar "9090"),
    ("target_protocol", .scalar "TCP"), ("rate_bps", .scalar "5M"), ("time_scale", .scalar "1s"),
    ("gress", .scalar "ingress"), ("ip_enable", .scalar "enable"), ("port_enable", .scalar "disable"),
    ("protocol_enable", .scalar "disable")]

example : (Port.fields docs portSection).toOption.map
    (fun r => (r.targetIp, r.targetPort, r.rateBps, r.ipEnable)) = some (0xc0a85b81, 9090, 5242880, 1) := by
  decide +kernel

/-- All calls of the port module succeed, and there is no rule to parse. -/
theorem a_missing_rule_is_loaded : ¬ (Load.port ⟨fun _ => true, true, true⟩).Enforced docs (.map []) := by
  intro h
  obtain ⟨r, hr, -⟩ := h .empty rfl
  cases hr

end Ksight.Wirefisher.Modules
