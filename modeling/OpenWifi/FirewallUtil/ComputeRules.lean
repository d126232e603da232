import OpenWifi.FirewallUtil.Iptables
import Mathlib.Data.List.Infix

/-!
# The rules of a firewall definition

`make_iptables_rules.c` turns the options of a firewall rule into `iptables` commands.  A list with one entry becomes a
test in the text `single_check`; a longer one becomes rules that set or clear a bit in the top byte of the connection
mark.
-/

namespace OpenWifi.FirewallUtil

/-- The addresses of `parse_ips_and_macs`. -/
structure AddressDef where
  ips : List Text
  ranges : List Text
  macs : List Text

inductive UrlVar where
  | contains
  | regex
  | exact
  | domainContains
  | domainRegex
  | domainExact
  deriving DecidableEq

/-- The options that `compute_rules` looks up in a definition. -/
structure RuleDef where
  activeHours : Option Text
  activeWeekdays : Option Text
  activeWeeklyRanges : Option Text
  layer7 : Option Text
  ipp2p : Option Text
  minPktSize : Option Text
  maxPktSize : Option Text
  proto : Option Text
  url : UrlVar → Option (List Text)
  notUrl : UrlVar → Option (List Text)
  mark : Option (List Text)
  notMark : Option (List Text)
  connmark : Option (List Text)
  notConnmark : Option (List Text)
  localAddr : Option AddressDef
  notLocalAddr : Option AddressDef
  remoteAddr : Option AddressDef
  notRemoteAddr : Option AddressDef
  localPort : Option (List Text)
  notLocalPort : Option (List Text)
  remotePort : Option (List Text)
  notRemotePort : Option (List Text)

/-- `url_match_vars` in their order. -/
def urlVars : List UrlVar := [.contains, .regex, .exact, .domainContains, .domainRegex, .domainExact]

/-- `url_prefixes`. -/
def UrlVar.test : UrlVar → Text
  | .contains => lit " -m weburl --contains "
  | .regex => lit " -m weburl --contains_regex "
  | .exact => lit " -m weburl --matches_exactly "
  | .domainContains => lit " -m weburl --domain_only --contains "
  | .domainRegex => lit " -m weburl --domain_only --contains_regex "
  | .domainExact => lit " -m weburl --domain_only --matches_exactly "

/-! ## `compute_multi_rules` -/

structure Checks where
  multiRules : List Text
  singleCheck : Text

/-- What all rules of one call of `compute_rules` have in common. -/
structure Common where
  table : Text
  chain : Text
  proto : Text

/-- `rule_prefix`. -/
def Common.start (k : Common) : Text := lit "iptables -t " ++ k.table ++ lit " -A " ++ k.chain ++ lit " "

def markBit (maskByteIndex : ℕ) : ℕ := 0x01000000 * 2 ^ maskByteIndex

def quoteArg (quotedArgs : Bool) (entry : Text) : Text :=
  lit (if quotedArgs then " \"" else " ") ++ entry ++ lit (if quotedArgs then "\" " else " ")

def entryRules (k : Common) (requiresProto : Bool) (commonPart : Text) : List Text :=
  if k.proto = lit "both" then
    if requiresProto then [k.start ++ lit " -p tcp " ++ commonPart, k.start ++ lit " -p udp " ++ commonPart]
    else [k.start ++ lit " " ++ commonPart]
  else [k.start ++ lit " -p " ++ k.proto ++ lit " " ++ commonPart]

/-- `compute_multi_rules`: 0 without a list, 1 when its entry is a part of the single check, 2 when it has rules. -/
def computeMultiRules (entries? : Option (List Text)) (checks : Checks) (neverSingle : Bool) (k : Common)
    (testPrefix1 testPrefix2 : Text) (isNegation : Bool) (maskByteIndex : ℕ)
    (requiresProto quotedArgs : Bool) : ℕ × Checks :=
  match entries?, neverSingle with
  | none, _ => (0, checks)
  | some [entry], false =>
    (1, { checks with
      singleCheck := lit " " ++ testPrefix1 ++ lit (if isNegation then " ! " else " ") ++ testPrefix2 ++
        quoteArg quotedArgs entry ++ checks.singleCheck })
  | some entries, _ =>
    let mask := hexConstant (markBit maskByteIndex)
    let connmarkPart := lit " -j CONNMARK --set-mark " ++ (if isNegation then lit "0x0" else mask) ++ lit "/" ++ mask
    (2, { checks with
      multiRules := checks.multiRules ++ entries.flatMap fun entry => entryRules k requiresProto
        (testPrefix1 ++ lit " " ++ testPrefix2 ++ quoteArg quotedArgs entry ++ connmarkPart) })

/-! ## The stages of `compute_rules` -/

/-- What has been computed after some of the lists, with `initial_mask_list` and `final_mask_list`. -/
structure Progress where
  checks : Checks
  masks : List (Bool × Bool)

variable (d : RuleDef)

def initialCheck : Text :=
  (match d.activeWeeklyRanges, d.activeHours, d.activeWeekdays with
    | some ranges, _, _ => lit " -m timerange --weekly_ranges \"" ++ ranges ++ lit "\" "
    | none, some hours, some weekdays =>
      lit " -m timerange --hours \"" ++ hours ++ lit "\" --weekdays \"" ++ weekdays ++ lit "\" "
    | none, some hours, none => lit " -m timerange --hours \"" ++ hours ++ lit "\" "
    | none, none, some weekdays => lit " -m timerange --weekdays \"" ++ weekdays ++ lit "\" "
    | none, none, none => []) ++
  (d.layer7.elim [] fun l7proto => lit " -m layer7 --l7proto " ++ l7proto) ++
  (d.ipp2p.elim [] fun ipp2p => lit " -m ipp2p --" ++ ipp2p) ++
  match d.minPktSize, d.maxPktSize with
    | some min, some max => lit " -m length --length " ++ min ++ lit ":" ++ max ++ lit " "
    | _, _ => []

/-- The protocol of a definition: in lower case, and `both` for any other text. -/
def normalProto (proto : Option Text) : Text :=
  let lower := (proto.getD (lit "both")).map Char.toLower
  if lower = lit "udp" ∨ lower = lit "tcp" ∨ lower = lit "both" then lower else lit "both"

def urlCount (lists : UrlVar → Option (List Text)) : ℕ := (urlVars.map fun v => ((lists v).getD []).length).sum

def urlIsNegated : Bool := urlCount d.url == 0

/-- `url_lists`. -/
def urlLists : UrlVar → Option (List Text) := if urlIsNegated d then d.notUrl else d.url

/-- `url_rule_count`. -/
def urlRuleCount : ℕ := urlCount (urlLists d)

variable (k : Common) (includeProto : Bool)

def urlStage (p : Progress) : Progress where
  checks := urlVars.foldl (fun checks v =>
    match urlLists d v with
    | none | some [] => checks
    | some entries =>
      (computeMultiRules (some entries) checks (1 < urlRuleCount d) k v.test [] (urlIsNegated d)
        p.masks.length includeProto
        true).2) p.checks
  masks := p.masks ++ [(urlIsNegated d, decide (1 < urlRuleCount d))]

variable (positive negated : Option (List Text))

def listStage (singleNegation : Bool) (testPrefix1 testPrefix2 : Text)
    (requiresProto : Bool) (k : Common) (p : Progress) : Progress :=
  let isNegated := positive.isNone && negated.isSome
  let (parseType, checks) :=
    computeMultiRules (positive.or negated) p.checks (isNegated && !singleNegation) k testPrefix1
    testPrefix2 isNegated p.masks.length requiresProto false
  ⟨checks, p.masks ++ [(isNegated, parseType == 2)]⟩

def markStage : Progress → Progress :=
  listStage d.mark d.notMark false (lit " -m mark ") (lit " --mark ") includeProto k

def connmarkStage : Progress → Progress :=
  listStage d.connmark d.notConnmark true (lit " -m connmark ") (lit " --mark ") includeProto k

structure AddressTests where
  ip : Text × Text
  range : Text × Text
  mac : Option (Text × Text)

/-- `addr_prefix1[0]` and `addr_prefix2[0]`. -/
def sourceTests : AddressTests :=
  ⟨(lit " -s ", []), (lit " -m iprange ", lit " --src-range "), some (lit " -m mac --mac-source ", [])⟩

/-- `addr_prefix1[1]` and `addr_prefix2[1]`. -/
def destinationTests : AddressTests := ⟨(lit " -d", []), (lit "-m iprange ", lit " --dst-range "), none⟩

def AddressTests.lists (t : AddressTests) (a : AddressDef) : List (List Text × Text × Text) :=
  [(a.ips, t.ip), (a.ranges, t.range)] ++ (t.mac.map fun m => (a.macs, m)).toList

def addressRules (isMulti isNegated : Bool) (maskByteIndex : ℕ) (includeProto : Bool) (k : Common) (checks : Checks)
    (list : List Text × Text × Text) : Checks :=
  if list.1 = [] then checks
  else (computeMultiRules (some list.1) checks isMulti k list.2.1 list.2.2 isNegated maskByteIndex includeProto false).2

def addressStage (positive negated : Option AddressDef) (t : AddressTests) (includeProto : Bool) (k : Common)
    (p : Progress) : Progress :=
  match positive.or negated with
  | none => p
  | some a =>
    let isNegated := positive.isNone
    let isMulti : Bool := 1 < ((t.lists a).map fun l => l.1.length).sum
    ⟨(t.lists a).foldl (addressRules isMulti isNegated p.masks.length includeProto k) p.checks,
      p.masks ++ [(isNegated, isMulti)]⟩

def sportStage : Common → Progress → Progress :=
  listStage positive negated true (lit " --sport ") [] true

def dportStage : Common → Progress → Progress :=
  listStage positive negated true (lit " --dport ") [] true

/-! ## `compute_rules` -/

structure Ends where
  src : Option AddressDef
  notSrc : Option AddressDef
  dst : Option AddressDef
  notDst : Option AddressDef
  sport : Option (List Text)
  notSport : Option (List Text)
  dport : Option (List Text)
  notDport : Option (List Text)

def RuleDef.ends (isIngress : Bool) : Ends :=
  if isIngress then
    ⟨d.remoteAddr, d.notRemoteAddr, d.localAddr, d.notLocalAddr, d.remotePort, d.notRemotePort,
      d.localPort, d.notLocalPort⟩
  else
    ⟨d.localAddr, d.notLocalAddr, d.remoteAddr, d.notRemoteAddr, d.localPort, d.notLocalPort,
      d.remotePort, d.notRemotePort⟩

def computeLists (includeProto isIngress : Bool) : Progress :=
  let e := d.ends isIngress
  dportStage e.dport e.notDport k <|
    sportStage e.sport e.notSport k <|
      addressStage e.dst e.notDst destinationTests includeProto k <|
        addressStage e.src e.notSrc sourceTests includeProto k <|
          connmarkStage d k includeProto <| markStage d k includeProto <|
            urlStage d k includeProto ⟨⟨[], initialCheck d⟩, []⟩

/-- `sport_def` or `dport_def` is given. -/
def Ends.portsGiven (e : Ends) : Bool := (e.sport.or e.notSport).isSome || (e.dport.or e.notDport).isSome

def singleStage (portsGiven : Bool) (k : Common) (p : Progress) : Progress :=
  if p.checks.singleCheck = [] then p
  else
    let requiresProto := !(k.proto = lit "both" && !portsGiven)
    let checks := (computeMultiRules (some [p.checks.singleCheck]) p.checks true k (lit " ") [] false p.masks.length
      requiresProto false).2
    ⟨checks, p.masks ++ [(false, true)]⟩

/-- The loop over the bits: `initial_main_mark` and `final_match`. -/
def sumMarks (urlMaskByteIndex : ℕ) : ℕ → List (Bool × Bool) → ℕ × ℕ
  | _, [] => (0, 0)
  | index, (isNegated, isMulti) :: masks =>
    let nextMarkBit := if isMulti then markBit index else 0
    let (initialMainMark, finalMatch) := sumMarks urlMaskByteIndex (index + 1) masks
    (initialMainMark + (if isNegated ∧ index ≠ urlMaskByteIndex then nextMarkBit else 0), finalMatch + nextMarkBit)

def markedRules (p : Progress) (target targetOptions : Text) : List Text :=
  let initialUrlMark := if urlIsNegated d && 1 < urlRuleCount d then 0x01000000 else 0
  let (initialMainMark, finalMatch) := sumMarks 0 0 p.masks
  (if 0 < initialMainMark then
    [k.start ++ lit " -j CONNMARK --set-mark " ++ hexConstant initialMainMark ++ lit "/0xFF000000"] else []) ++
  (if 0 < initialUrlMark then
    [k.start ++ lit " -p tcp  -m weburl --contains http -j CONNMARK --set-mark " ++ hexConstant initialUrlMark ++
      lit "/" ++ hexConstant initialUrlMark] else []) ++
  p.checks.multiRules ++
  (if target = lit "REJECT" ∧ targetOptions = [] ∧ k.proto ≠ lit "both" then
    [k.start ++ lit " -p tcp -m connmark --mark " ++ hexConstant finalMatch ++
        lit "/0xFF000000 -j REJECT --reject-with tcp-reset",
      k.start ++ lit " -m connmark --mark " ++ hexConstant finalMatch ++ lit "/0xFF000000 -j REJECT"]
  else
    [k.start ++ lit (if lit "tcp-reset" <:+: targetOptions then " -p tcp " else "") ++ lit " -m connmark --mark " ++
      hexConstant finalMatch ++ lit "/0xFF000000 -j " ++ target ++ targetOptions]) ++
  [k.start ++ lit " -j CONNMARK --set-mark 0x0/0xFF000000"]

def plainRules (portsGiven : Bool) (k : Common) (singleCheck target targetOptions : Text) : List Text :=
  let rejects := target = lit "REJECT" ∧ targetOptions = []
  let reset := k.start ++ lit " -p tcp " ++ singleCheck ++ lit " -j REJECT --reject-with tcp-reset"
  let jump := singleCheck ++ lit " -j " ++ target ++ targetOptions
  if k.proto = lit "both" then
    if portsGiven then
      [if rejects then reset else k.start ++ lit " -p tcp " ++ jump, k.start ++ lit " -p udp " ++ jump]
    else (if rejects then [reset] else []) ++ [k.start ++ jump]
  else [k.start ++ lit " -p " ++ k.proto ++ lit " " ++ jump]

/-- `compute_rules`. -/
def computeRules (table chain : Text) (isIngress : Bool) (target : Text) (targetOptions : Option Text) : List Text :=
  let target := target.map Char.toUpper
  let normal := normalProto d.proto
  let includeProto : Bool := normal ≠ lit "both"
  let k : Common := ⟨table, chain, if 0 < urlRuleCount d then lit "tcp" else normal⟩
  let e := d.ends isIngress
  let p := computeLists d k includeProto isIngress
  let given := targetOptions.getD []
  let targetOptions :=
    if given = [] ∧ k.proto = lit "tcp" ∧ target = lit "REJECT" then lit " --reject-with tcp-reset " else given
  (if p.checks.multiRules = [] then plainRules e.portsGiven k p.checks.singleCheck target targetOptions
  else markedRules d k (singleStage e.portsGiven k p) target targetOptions) ++
  if 0 < urlRuleCount d ∧ target = lit "ACCEPT" ∧ isIngress = false then
    [k.start ++ lit " -p tcp -m weburl --contains  http -j CONNMARK --set-mark 0xFF000000/0xFF000000",
      k.start ++ lit " -p tcp --dport 80 -m connmark ! --mark 0xFF000000/0xFF000000 -j ACCEPT ",
      k.start ++ lit " -j CONNMARK --set-mark 0x0/0xFF000000"]
  else []

end OpenWifi.FirewallUtil
