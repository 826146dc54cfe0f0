import MyGpt.Characters
import MyGpt.Lib.Expiring
import MyGpt.Lib.Trace
import Mathlib.Data.List.Basic
import Mathlib.Data.Finset.Prod
import Mathlib.Data.List.Nodup
import Mathlib.Order.Interval.Finset.Nat
/-!
# RateLimit — whom a request is counted for, and how many pass

`core/rate_limit.py`.  A trusted proxy tells in a header where a request came from; whoever sent the request could have
written the same header.  The header counts when the peer is trusted, and then only from its last hop that is not
(`ipOf_unforgeable`).  Where no hop is untrusted the first one is taken, whoever wrote it (`trusted_hop_used`).

`_check` counts a request in Redis, in a key that is gone after the window, and in a sliding window of the worker where Redis
fails.  Any number of calls are under way, each command may be lost before Redis has carried it out or after it, and still
only so many pass in a window (`passed_bounded`), and nobody is kept out for good (`throttle_ends`).
-/
namespace MyGpt
namespace RateLimit

open Chat (Text strip)

/-! ## addresses, as `ipaddress` reads them -/

inductive Address
  | v4 (value : BitVec 32)
  | v6 (value : BitVec 128)
  deriving DecidableEq

inductive Network
  | v4 (address mask : BitVec 32)
  | v6 (address mask : BitVec 128)
  deriving DecidableEq

/-- `address in network` -/
def Network.contains : Network → Address → Bool
  | .v4 address mask, .v4 value => decide (value &&& mask = address)
  | .v6 address mask, .v6 value => decide (value &&& mask = address)
  | _, _ => false

def hexValue (c : Char) : Option Nat :=
  if '0' ≤ c ∧ c ≤ '9' then some (c.toNat - 48)
  else if 'a' ≤ c ∧ c ≤ 'f' then some (c.toNat - 87)
  else if 'A' ≤ c ∧ c ≤ 'F' then some (c.toNat - 55)
  else none

/-- `int` of ASCII digits to the base. -/
def numeral (base : Nat) (text : Text) : Option Nat :=
  text.foldl (fun n c => n.bind (fun n => ((hexValue c).filter (· < base)).map (n * base + ·)))
    (if text = [] then none else some 0)

def parseOctet (text : Text) : Option Nat :=
  if 3 < text.length ∨ text ≠ ['0'] ∧ text.head? = some '0' then none else (numeral 10 text).filter (· ≤ 255)

def parseV4 (text : Text) : Option (BitVec 32) :=
  match (text.splitOn '.').map parseOctet with
  | [some a, some b, some c, some d] => some (BitVec.ofNat 32 (((a * 256 + b) * 256 + c) * 256 + d))
  | _ => none

def parseHextet (text : Text) : Option Nat := if 4 < text.length then none else numeral 16 text

def expandV4 (parts : List Text) : Option (List Text) :=
  match parts.getLast? with
  | some last =>
    if last.contains '.' then
      (parseV4 last).map (fun value =>
        parts.dropLast ++ [Nat.toDigits 16 (value.toNat / 65536), Nat.toDigits 16 (value.toNat % 65536)])
    else some parts
  | none => some parts

/-- The eight hextets: `::` is the one empty part that is not at an end, and stands for one zero at least. -/
def hextets (parts : List Text) : Option (List Text) :=
  match (List.range parts.length).filter (fun i => 0 < i ∧ i + 1 < parts.length ∧ parts[i]? = some []) with
  | [] => if parts.length ≠ 8 ∨ parts.head? = some [] ∨ parts.getLast? = some [] then none else some parts
  | [skip] =>
    let hi := if parts.head? = some [] then (parts.take skip).drop 1 else parts.take skip
    let lo := if parts.getLast? = some [] then (parts.drop (skip + 1)).dropLast else parts.drop (skip + 1)
    if parts.head? = some [] ∧ hi ≠ [] then none
    else if parts.getLast? = some [] ∧ lo ≠ [] then none
    else if 8 ≤ hi.length + lo.length then none
    else some (hi ++ List.replicate (8 - (hi.length + lo.length)) ['0'] ++ lo)
  | _ => none

/-- `_split_scope_id`: the address without its zone. -/
def splitScope (text : Text) : Option Text :=
  match text.dropWhile (· ≠ '%') with
  | [] => some text
  | _ :: scope => if scope = [] ∨ scope.contains '%' then none else some (text.takeWhile (· ≠ '%'))

def parseV6 (text : Text) : Option (BitVec 128) := do
  if text.contains '/' then none
  let address ← splitScope text
  if (address.splitOn ':').length < 3 then none
  let parts ← expandV4 (address.splitOn ':')
  if 9 < parts.length then none
  let values ← (← hextets parts).mapM parseHextet
  return BitVec.ofNat 128 (values.foldl (fun n h => n * 65536 + h) 0)

def ipAddress (text : Text) : Option Address :=
  match parseV4 text with
  | some value => some (.v4 value)
  | none => (parseV6 text).map .v6

def netmask (bits : Nat) (prefixlen : Nat) : BitVec bits := BitVec.allOnes bits <<< (bits - prefixlen)

/-- `_prefix_from_prefix_string` -/
def prefixLength (bits : Nat) (text : Text) : Option Nat := (numeral 10 text).filter (· ≤ bits)

/-- `_prefix_from_ip_string`: the length of a netmask, or of a hostmask. -/
def maskLength (text : Text) : Option Nat := do
  let value ← parseV4 text
  match (List.range 33).find? (fun n => netmask 32 n = value) with
  | some n => some n
  | none => (List.range 33).find? (fun n => netmask 32 n = ~~~value)

/-- `ipaddress.ip_network(text, strict=False)` -/
def ipNetwork (text : Text) : Option Network :=
  let parts : Option (Text × Option Text) :=
    match text.splitOn '/' with
    | [address] => some (address, none)
    | [address, mask] => some (address, some mask)
    | _ => none
  match parts with
  | none => none
  | some (address, mask) =>
    let v4 := (parseV4 address).bind (fun value =>
      ((mask.map (fun m => (prefixLength 32 m).or (maskLength m))).getD (some 32)).map (fun n =>
        Network.v4 (value &&& netmask 32 n) (netmask 32 n)))
    v4.or ((parseV6 address).bind (fun value =>
      ((mask.map (prefixLength 128)).getD (some 128)).map (fun n =>
        Network.v6 (value &&& netmask 128 n) (netmask 128 n))))

/-! ## the rate limiter -/

def defaultPeers : List Text :=
  ["127.0.0.0/8".toList, "::1/128".toList, "10.0.0.0/8".toList, "172.16.0.0/12".toList, "192.168.0.0/16".toList]

/-- `_trusted_proxy_peers`; an entry that is no network is passed over. -/
def trustedProxyPeers (setting : Text) : List Network :=
  let raw := strip setting
  if raw = [] then defaultPeers.filterMap ipNetwork
  else (((raw.splitOn ',').map strip).filter (· ≠ [])).filterMap ipNetwork

def ipInTrusted (text : Text) (networks : List Network) : Bool :=
  match ipAddress text with
  | none => false
  | some address => networks.any (·.contains address)

structure Request where
  client : Option Text := none
  /-- The value of `x-forwarded-for`. -/
  forwarded : Option Text := none

def Request.peer (request : Request) : Text := request.client.getD "unknown".toList

/-- `[hop.strip() for hop in forwarded.split(",") if hop.strip()]` -/
def hopsOf (forwarded : Text) : List Text := ((forwarded.splitOn ',').map strip).filter (· ≠ [])

def ipOf (trusted : List Network) (request : Request) : Text :=
  if ipInTrusted request.peer trusted = false then request.peer
  else
    let forwarded := request.forwarded.getD []
    if forwarded = [] then request.peer
    else
      let chain := hopsOf forwarded
      match chain.reverse.find? (fun hop => !ipInTrusted hop trusted) with
      | some hop => hop
      | none => chain.head?.getD request.peer

/-! ## the way of a request -/

def Request.chain (request : Request) : List Text := hopsOf (request.forwarded.getD []) ++ [request.peer]

def appendPeer (forwarded : Option Text) (seen : Text) : Option Text :=
  match forwarded with
  | none => some seen
  | some value => some (value ++ ',' :: ' ' :: seen)

def throughProxies (forwarded : Option Text) (appended : List Text) : Option Text := appended.foldl appendPeer forwarded

theorem hopsOf_append (value more : Text) : hopsOf (value ++ ',' :: more) = hopsOf value ++ hopsOf more := by
  unfold hopsOf
  rw [List.splitOn_append_cons_self, List.map_append, List.filter_append]

theorem strip_space (text : Text) : strip (' ' :: text) = strip text := rfl

theorem hopsOf_space (text : Text) : hopsOf (' ' :: text) = hopsOf text := by
  unfold hopsOf
  obtain ⟨first, rest, hsplit⟩ := List.exists_cons_of_ne_nil (List.splitOn_ne_nil ',' text)
  rw [List.splitOn_cons_eq_if_modifyHead, if_neg (by decide), hsplit, List.modifyHead_cons, List.map_cons, List.map_cons,
    strip_space]

theorem hopsOf_appendPeer (forwarded : Option Text) (seen : Text) :
    hopsOf ((appendPeer forwarded seen).getD []) = hopsOf (forwarded.getD []) ++ hopsOf seen := by
  cases forwarded with
  | none => rfl
  | some value =>
    change hopsOf (value ++ ',' :: ' ' :: seen) = _
    rw [hopsOf_append, hopsOf_space]
    rfl

theorem hopsOf_throughProxies : ∀ (appended : List Text) (forwarded : Option Text),
    hopsOf ((throughProxies forwarded appended).getD []) = hopsOf (forwarded.getD []) ++ appended.flatMap hopsOf
  | [], forwarded => by
    rw [List.flatMap_nil, List.append_nil]
    rfl
  | seen :: appended, forwarded => by
    have ih := hopsOf_throughProxies appended (appendPeer forwarded seen)
    rw [hopsOf_appendPeer] at ih
    rw [List.flatMap_cons, ← List.append_assoc]
    exact ih

/-! ## which hop is used -/

section

variable (trusted : List Network)

def lastUntrusted (chain : List Text) : Option Text := chain.reverse.find? (fun hop => !ipInTrusted hop trusted)

theorem lastUntrusted_append (chain more : List Text) :
    lastUntrusted trusted (chain ++ more) = (lastUntrusted trusted more).or (lastUntrusted trusted chain) := by
  unfold lastUntrusted
  rw [List.reverse_append, List.find?_append]

theorem lastUntrusted_none {chain : List Text} :
    lastUntrusted trusted chain = none ↔ ∀ hop ∈ chain, ipInTrusted hop trusted = true := by
  unfold lastUntrusted
  rw [List.find?_eq_none]
  simp

theorem lastUntrusted_some {before after : List Text} {hop : Text} (hhop : ipInTrusted hop trusted = false)
    (hafter : ∀ h ∈ after, ipInTrusted h trusted = true) : lastUntrusted trusted (before ++ hop :: after) = some hop := by
  have hlast : lastUntrusted trusted [hop] = some hop := by simp [lastUntrusted, hhop]
  rw [List.append_cons, lastUntrusted_append, (lastUntrusted_none trusted).2 hafter, Option.none_or, lastUntrusted_append,
    hlast, Option.some_or]

theorem ipOf_eq (request : Request) :
    ipOf trusted request = (lastUntrusted trusted request.chain).getD (request.chain.headD []) := by
  unfold ipOf Request.chain
  rw [lastUntrusted_append]
  cases hpeer : ipInTrusted request.peer trusted with
  | false =>
    have hlast : lastUntrusted trusted [request.peer] = some request.peer := by simp [lastUntrusted, hpeer]
    rw [if_pos rfl, hlast]
    rfl
  | true =>
    have hnone : lastUntrusted trusted [request.peer] = none := by simp [lastUntrusted, hpeer]
    rw [if_neg (by decide), hnone, Option.none_or]
    dsimp only
    split
    · rename_i hempty
      rw [hempty]
      rfl
    · change (match lastUntrusted trusted (hopsOf (request.forwarded.getD [])) with
        | some hop => hop
        | none => (hopsOf (request.forwarded.getD [])).head?.getD request.peer) = _
      cases lastUntrusted trusted (hopsOf (request.forwarded.getD [])) with
      | some hop => rfl
      | none => cases hopsOf (request.forwarded.getD []) <;> rfl

end

/-- **The client address cannot be forged through trusted proxies.**  It is the last of the chain that is not an address in a
trusted network; where there is none, the first of the chain.  What the header began with does not matter once the proxies
have seen an untrusted hop, and the header does not where the peer is untrusted. -/
theorem ipOf_unforgeable (trusted : List Network) (request : Request) :
    (∀ before hop after, request.chain = before ++ hop :: after → ipInTrusted hop trusted = false →
        (∀ h ∈ after, ipInTrusted h trusted = true) → ipOf trusted request = hop) ∧
      ((∀ hop ∈ request.chain, ipInTrusted hop trusted = true) → request.chain.head? = some (ipOf trusted request)) ∧
      (∀ (forged : Option Text) (appended : List Text),
        (∃ hop ∈ appended.flatMap hopsOf, ipInTrusted hop trusted = false) →
          ipOf trusted { request with forwarded := throughProxies forged appended } =
            ipOf trusted { request with forwarded := throughProxies request.forwarded appended }) ∧
      (ipInTrusted request.peer trusted = false → ∀ forwarded, ipOf trusted { request with forwarded } = request.peer) := by
  refine ⟨fun before hop after hchain hhop hafter => ?_, fun hall => ?_, fun forged appended huntrusted => ?_, fun hpeer => ?_⟩
  · rw [ipOf_eq, hchain, lastUntrusted_some trusted hhop hafter]
    rfl
  · rw [ipOf_eq, (lastUntrusted_none trusted).2 hall]
    cases hchain : request.chain with
    | nil => exact absurd hchain (List.append_ne_nil_of_right_ne_nil _ (List.cons_ne_nil _ _))
    | cons first rest => rfl
  · have hsome : (lastUntrusted trusted (appended.flatMap hopsOf)).isSome = true := by
      rw [Option.isSome_iff_ne_none, Ne, lastUntrusted_none]
      obtain ⟨hop, hmem, hhop⟩ := huntrusted
      intro hall
      rw [hall hop hmem] at hhop
      cases hhop
    obtain ⟨hop, hhop⟩ := Option.isSome_iff_exists.1 hsome
    have hsame : ∀ forwarded : Option Text,
        ipOf trusted { request with forwarded := throughProxies forwarded appended } =
          ((lastUntrusted trusted [request.peer]).or (some hop)).getD [] := by
      intro forwarded
      rw [ipOf_eq, Request.chain, hopsOf_throughProxies, lastUntrusted_append, lastUntrusted_append, hhop, Option.some_or]
      change ((lastUntrusted trusted [request.peer]).or (some hop)).getD _ = _
      cases lastUntrusted trusted [request.peer] <;> rfl
    rw [hsame, hsame]
  · intro forwarded
    exact if_pos hpeer

def localNetworks : List Network := trustedProxyPeers []

/-- A hop in a trusted network is used where there is no other. -/
theorem trusted_hop_used :
    ¬ ∀ (trusted : List Network) (request : Request), ∃ before hop after, request.chain = before ++ hop :: after ∧
      ipInTrusted hop trusted = false ∧ (∀ h ∈ after, ipInTrusted h trusted = true) ∧ ipOf trusted request = hop := by
  intro h
  obtain ⟨before, hop, after, -, hhop, -, huse⟩ :=
    h localNetworks { client := some "127.0.0.1".toList, forwarded := some "10.0.0.7".toList }
  rw [← huse] at hhop
  exact absurd hhop (by decide)

/-! ## how many pass -/

open Trace (Reaches)

/-- `limit` calls in `window` seconds, for one `scope:identity`.  Times are milliseconds. -/
structure Rule where
  limit : Nat
  window : Nat

def Rule.span (r : Rule) : Int := r.window * 1000

def Rule.within (r : Rule) (start t : Int) : Bool := decide (start ≤ t ∧ t < start + r.span)

/-- What `INCR` answers, and when the key it counted under was made. -/
structure Count where
  value : Nat
  since : Int
  deriving DecidableEq

/-- A call in `_check`. -/
inductive Phase
  | arrives
  /-- The script has failed; a plain `INCR` is tried. -/
  | retries
  /-- The plain `INCR` at `time` has made the key; `EXPIRE` is to follow. -/
  | expires (time : Int) (count : Count)
  /-- Over the limit; `TTL` is asked. -/
  | over
  /-- Redis has failed. -/
  | fallsBack
  | passed
  | rejected (retryAfter : Int)
  deriving DecidableEq

structure Limiter where
  now : Int
  key : Expiring Count
  /-- `_memory[key_id]` of each worker. -/
  memory : Nat → List Int
  calls : Nat → Phase
  /-- Who was let through by Redis, with the time of its `INCR`. -/
  redisPassed : List (Int × Count)
  memoryPassed : Nat → List Int

/-- `applied`: Redis has carried the command out.  `replied`: the worker has heard of it. -/
inductive Act
  | elapses (ms : Nat)
  | unreachable (i : Nat)
  | eval (i : Nat) (applied replied : Bool)
  | incr (i : Nat) (applied replied : Bool)
  | expire (i : Nat) (applied replied : Bool)
  | ttl (i : Nat) (replied : Bool)
  | sliding (i worker : Nat)

def counted (key : Expiring Count) (now : Int) : Count :=
  match key.get now with
  | some count => ⟨count.value + 1, count.since⟩
  | none => ⟨1, now⟩

def incr (key : Expiring Count) (now : Int) : Expiring Count := key.update now (fun _ => counted key now)

/-- `TTL`, rounded to seconds. -/
def ttl (key : Expiring Count) (now : Int) : Int :=
  match key.get now, key.deadline with
  | none, _ => -2
  | some _, none => -1
  | some _, some deadline => (deadline - now + 500) / 1000

def Limiter.setCall (s : Limiter) (i : Nat) (phase : Phase) : Limiter := { s with calls := Function.update s.calls i phase }

section
variable (r : Rule)

/-- `_RATELimit_LUA` -/
def script (key : Expiring Count) (now : Int) : Expiring Count :=
  if (counted key now).value = 1 then (incr key now).expire now r.span else incr key now

def Limiter.decides (s : Limiter) (i : Nat) (time : Int) (count : Count) : Limiter :=
  if r.limit < count.value then s.setCall i .over
  else { s.setCall i .passed with redisPassed := (time, count) :: s.redisPassed }

/-- The in-memory sliding window, under `_memory_lock`. -/
def Limiter.slides (s : Limiter) (i worker : Nat) : Limiter :=
  let bucket := (s.memory worker).filter (s.now - r.span < ·)
  if r.limit ≤ bucket.length then
    s.setCall i (.rejected (max (((bucket.headD 0) + r.span - s.now) / 1000 + 1) 1))
  else
    { s.setCall i .passed with
      memory := Function.update s.memory worker (bucket ++ [s.now])
      memoryPassed := Function.update s.memoryPassed worker (s.memoryPassed worker ++ [s.now]) }

def step (s : Limiter) : Act → Option Limiter
  | .elapses ms => some { s with now := s.now + ms }
  | .unreachable i => if s.calls i = .arrives then some (s.setCall i .fallsBack) else none
  | .eval i applied replied =>
    if s.calls i = .arrives then
      if applied then
        let s' := { s with key := script r s.key s.now }
        some (if replied then s'.decides r i s.now (counted s.key s.now) else s'.setCall i .retries)
      else some (s.setCall i .retries)
    else none
  | .incr i applied replied =>
    if s.calls i = .retries then
      if applied then
        let count := counted s.key s.now
        let s' := { s with key := incr s.key s.now }
        some (if replied then if count.value = 1 then s'.setCall i (.expires s.now count) else s'.decides r i s.now count
          else s'.setCall i .fallsBack)
      else some (s.setCall i .fallsBack)
    else none
  | .expire i applied replied =>
    match s.calls i with
    | .expires time count =>
      let s' := if applied then { s with key := s.key.expire s.now r.span } else s
      some (if applied && replied then s'.decides r i time count else s'.setCall i .fallsBack)
    | _ => none
  | .ttl i replied =>
    if s.calls i = .over then
      some (s.setCall i (if replied then .rejected (max (ttl s.key s.now) 1) else .fallsBack))
    else none
  | .sliding i worker => if s.calls i = .fallsBack then some (s.slides r i worker) else none

def Limiter.start : Limiter := ⟨0, {}, fun _ => [], fun _ => .arrives, [], fun _ => []⟩

/-! ### what was drawn from Redis -/

structure KeyOk (key : Expiring Count) (now : Int) : Prop where
  since : ∀ k, key.value = some k → 1 ≤ k.value ∧ k.since ≤ now
  deadline : ∀ k d, key.value = some k → key.deadline = some d → k.since + r.span ≤ d

/-- The count `c`, drawn at `t`, is of the key that is there or of one that was gone before it was made. -/
structure Behind (key : Expiring Count) (now t : Int) (c : Count) : Prop where
  pos : 1 ≤ c.value
  drawn : c.since ≤ t ∧ t ≤ now
  key : ∃ k, key.value = some k ∧ (c.since = k.since ∧ c.value ≤ k.value ∧ (∀ d, key.deadline = some d → t < d) ∨
    t < k.since ∧ c.since + r.span ≤ k.since)

/-- Two draws are from one key, or one key was gone when the other was made, a window after it. -/
def Apart (t : Int) (c : Count) (u : Int) (d : Count) : Prop :=
  c.since = d.since ∨ t < d.since ∧ c.since + r.span ≤ d.since ∨ u < c.since ∧ d.since + r.span ≤ c.since

def Limiter.Drawn (s : Limiter) (t : Int) (c : Count) : Prop := (t, c) ∈ s.redisPassed ∨ ∃ i, s.calls i = .expires t c

structure RedisInv (s : Limiter) : Prop where
  key : KeyOk r s.key s.now
  behind : ∀ t c, s.Drawn t c → Behind r s.key s.now t c
  apart : ∀ t c u d, s.Drawn t c → s.Drawn u d → Apart r t c u d
  nodup : (s.redisPassed.map Prod.snd).Nodup
  once : ∀ i t c, s.calls i = .expires t c → (∀ u, (u, c) ∉ s.redisPassed) ∧ ∀ j u, s.calls j = .expires u c → j = i
  /-- Until its deadline is set the key stays. -/
  held : ∀ i t c, s.calls i = .expires t c →
    c.value = 1 ∧ s.key.deadline = none ∧ ∀ k, s.key.value = some k → k.since = c.since
  within : ∀ p ∈ s.redisPassed, p.2.value ≤ r.limit

/-- A count that nobody has yet. -/
structure Fresh (s : Limiter) (t : Int) (c : Count) : Prop where
  behind : Behind r s.key s.now t c
  new : ∀ u d, s.Drawn u d → d ≠ c ∧ Apart r u d t c

variable {r} {s s' : Limiter} {key : Expiring Count} {now t : Int} {c : Count}

theorem apart_comm {u : Int} {d : Count} (h : Apart r t c u d) : Apart r u d t c := by
  rcases h with h | h | h
  · exact .inl h.symm
  · exact .inr (.inr h)
  · exact .inr (.inl h)

theorem counted_pos (key : Expiring Count) (now : Int) : 1 ≤ (counted key now).value := by
  unfold counted
  split
  · exact Nat.le_add_left 1 _
  · exact Nat.le_refl 1

theorem expire_live {k : Count} (hspan : 0 < r.span) (hget : key.get now = some k) :
    key.expire now r.span = ⟨some k, some (now + r.span)⟩ := by
  unfold Expiring.expire
  rw [hget]
  exact if_neg (Int.not_le.2 hspan)

theorem get_of_forever (h : key.deadline = none) : key.get now = key.value := by
  unfold Expiring.get
  rw [h]
  rfl

/-- A key that is no longer there is past its deadline. -/
theorem deadline_of_gone {k : Count} (hget : key.get now = none) (hvalue : key.value = some k) :
    ∃ d, key.deadline = some d ∧ d ≤ now := by
  cases hd : key.deadline with
  | none =>
    rw [get_of_forever hd, hvalue] at hget
    cases hget
  | some d =>
    refine ⟨d, rfl, Int.not_lt.1 fun hlt => ?_⟩
    rw [Expiring.get_of_lasts (t := d) (fun e he => Int.le_of_eq (Option.some.inj (hd.symm.trans he))) hlt, hvalue] at hget
    cases hget

theorem keyOk_incr (h : KeyOk r key now) : KeyOk r (incr key now) now := by
  unfold incr Expiring.update counted
  cases hget : key.get now with
  | none => exact ⟨fun k hk => by cases hk; exact ⟨Nat.le_refl 1, Int.le_refl _⟩, fun _ _ _ hd => nomatch hd⟩
  | some k =>
    have hvalue := Expiring.get_eq_some hget
    exact ⟨fun _ hk => by cases hk; exact ⟨Nat.le_add_left 1 _, (h.since k hvalue).2⟩,
      fun _ d hk hd => by cases hk; exact h.deadline k d hvalue hd⟩

/-- **What `INCR` answers is new**, and what was drawn before stays behind the key. -/
theorem behind_incr (hk : KeyOk r key now) (hspan : 0 < r.span) (h : Behind r key now t c) :
    Behind r (incr key now) now t c ∧ c ≠ counted key now ∧ Apart r t c now (counted key now) := by
  obtain ⟨k, hvalue, hcase⟩ := h.key
  have hsince := (hk.since k hvalue).2
  unfold incr Expiring.update counted
  cases hget : key.get now with
  | none =>
    -- the key is gone: a new one is made
    obtain ⟨d, hd, hle⟩ := deadline_of_gone hget hvalue
    have hdeadline := hk.deadline k d hvalue hd
    have hgone : t < now ∧ c.since + r.span ≤ now := by
      rcases hcase with ⟨hs, -, hlt⟩ | ⟨hlt, hs⟩
      · have := hlt d hd
        omega
      · omega
    refine ⟨⟨h.pos, h.drawn, _, rfl, .inr hgone⟩, fun heq => ?_, .inr (.inl hgone)⟩
    have : c.since = now := by rw [heq]
    omega
  | some k' =>
    cases Option.some.inj (hvalue.symm.trans (Expiring.get_eq_some hget))
    rcases hcase with ⟨hs, hle, hlt⟩ | ⟨hlt, hs⟩
    · refine ⟨⟨h.pos, h.drawn, _, rfl, .inl ⟨hs, Nat.le_succ_of_le hle, hlt⟩⟩, fun heq => ?_, .inl hs⟩
      have : c.value = k.value + 1 := by rw [heq]
      omega
    · refine ⟨⟨h.pos, h.drawn, _, rfl, .inr ⟨hlt, hs⟩⟩, fun heq => ?_, .inr (.inl ⟨hlt, hs⟩)⟩
      have : c.since = k.since := by rw [heq]
      omega

theorem lt_of_incr {d : Int} (hd : (incr key now).deadline = some d) : now < d := by
  unfold incr Expiring.update at hd
  dsimp only at hd
  split at hd
  · rename_i hlive
    obtain ⟨k, hget⟩ := Option.isSome_iff_exists.1 hlive
    exact Expiring.lt_of_get hget hd
  · cases hd

theorem get_incr (key : Expiring Count) (now : Int) : (incr key now).get now = some (counted key now) := by
  cases hd : (incr key now).deadline with
  | none => exact get_of_forever hd
  | some d => exact Expiring.get_of_lasts (fun e he => Int.le_of_eq (Option.some.inj (hd.symm.trans he))) (lt_of_incr hd)

theorem behind_counted (hk : KeyOk r key now) : Behind r (incr key now) now now (counted key now) := by
  refine ⟨counted_pos key now, ?_, _, rfl, .inl ⟨rfl, Nat.le_refl _, fun _ => lt_of_incr⟩⟩
  unfold counted
  cases hget : key.get now with
  | none => exact ⟨Int.le_refl _, Int.le_refl _⟩
  | some k => exact ⟨(hk.since k (Expiring.get_eq_some hget)).2, Int.le_refl _⟩

theorem behind_expire {k : Count} (hspan : 0 < r.span) (hget : key.get now = some k) (h : Behind r key now t c) :
    Behind r (key.expire now r.span) now t c := by
  obtain ⟨k', hvalue, hcase⟩ := h.key
  cases Option.some.inj (hvalue.symm.trans (Expiring.get_eq_some hget))
  have hdrawn := h.drawn
  rw [expire_live hspan hget]
  refine ⟨h.pos, h.drawn, _, rfl, hcase.imp (fun hsame => ⟨hsame.1, hsame.2.1, fun d hd => ?_⟩) id⟩
  cases hd
  omega

theorem keyOk_expire {k : Count} (hspan : 0 < r.span) (hget : key.get now = some k) (h : KeyOk r key now) :
    KeyOk r (key.expire now r.span) now := by
  have hsince := h.since k (Expiring.get_eq_some hget)
  rw [expire_live hspan hget]
  refine ⟨fun _ hk => by cases hk; exact hsince, fun _ d hk hd => ?_⟩
  cases hk
  cases hd
  omega

/-! ### the calls -/

theorem calls_setCall {i j : Nat} {phase : Phase} (hphase : ∀ t c, phase ≠ .expires t c)
    (h : (s.setCall i phase).calls j = .expires t c) : j ≠ i ∧ s.calls j = .expires t c := by
  unfold Limiter.setCall at h
  dsimp only at h
  by_cases hj : j = i
  · rw [hj, Function.update_self] at h
    exact absurd h (hphase t c)
  · rw [Function.update_of_ne hj] at h
    exact ⟨hj, h⟩

theorem drawn_setCall {i : Nat} {phase : Phase} (hphase : ∀ t c, phase ≠ .expires t c)
    (h : (s.setCall i phase).Drawn t c) : s.Drawn t c := by
  rcases h with h | ⟨j, hj⟩
  · exact .inl h
  · exact .inr ⟨j, (calls_setCall hphase hj).2⟩

theorem inv_setCall (hi : RedisInv r s) {i : Nat} {phase : Phase} (hphase : ∀ t c, phase ≠ .expires t c) :
    RedisInv r (s.setCall i phase) where
  key := hi.key
  behind t c h := hi.behind t c (drawn_setCall hphase h)
  apart t c u d h h' := hi.apart t c u d (drawn_setCall hphase h) (drawn_setCall hphase h')
  nodup := hi.nodup
  once j t c h := ⟨(hi.once j t c (calls_setCall hphase h).2).1, fun l u h' =>
    (hi.once j t c (calls_setCall hphase h).2).2 l u (calls_setCall hphase h').2⟩
  held j t c h := hi.held j t c (calls_setCall hphase h).2
  within := hi.within

theorem inv_key (hi : RedisInv r s) (hkey : KeyOk r key s.now) (hbehind : ∀ t c, s.Drawn t c → Behind r key s.now t c)
    (hheld : ∀ i t c, s.calls i = .expires t c → key.deadline = none ∧ ∀ k, key.value = some k → k.since = c.since) :
    RedisInv r { s with key := key } :=
  { hi with key := hkey, behind := hbehind, held := fun i t c h => ⟨(hi.held i t c h).1, hheld i t c h⟩ }

/-- While the deadline of the key is to be set, the key is there. -/
theorem get_of_held (hi : RedisInv r s) {i : Nat} (h : s.calls i = .expires t c) (hspan : 0 < r.span) :
    ∃ k, s.key.get s.now = some k ∧ 1 ≤ k.value ∧ k.since = c.since := by
  obtain ⟨hone, hforever, hsince⟩ := hi.held i t c h
  obtain ⟨k, hvalue, hcase⟩ := (hi.behind t c (.inr ⟨i, h⟩)).key
  have hs := hsince k hvalue
  refine ⟨k, by rw [get_of_forever hforever, hvalue], ?_, hs⟩
  rcases hcase with ⟨-, hle, -⟩ | ⟨-, hs'⟩
  · omega
  · omega

theorem inv_incr (hi : RedisInv r s) (hspan : 0 < r.span) :
    RedisInv r { s with key := incr s.key s.now } ∧
      Fresh r { s with key := incr s.key s.now } s.now (counted s.key s.now) := by
  refine ⟨inv_key hi (keyOk_incr hi.key) (fun t c h => (behind_incr hi.key hspan (hi.behind t c h)).1) fun i t c h => ?_,
    behind_counted hi.key, fun u d h => (behind_incr hi.key hspan (hi.behind u d h)).2⟩
  obtain ⟨k, hget, -, hs⟩ := get_of_held hi h hspan
  unfold incr Expiring.update counted
  rw [hget]
  exact ⟨(hi.held i t c h).2.1, fun k' hk => by cases hk; exact hs⟩

theorem inv_script (hi : RedisInv r s) (hspan : 0 < r.span) :
    RedisInv r { s with key := script r s.key s.now } ∧
      Fresh r { s with key := script r s.key s.now } s.now (counted s.key s.now) := by
  obtain ⟨hi', hf⟩ := inv_incr hi hspan
  unfold script
  split
  · rename_i hone
    have hget := get_incr s.key s.now
    refine ⟨inv_key hi (keyOk_expire hspan hget hi'.key) (fun t c h => behind_expire hspan hget (hi'.behind t c h))
      fun i t c h => ?_, behind_expire hspan hget hf.behind, hf.new⟩
    -- nobody holds a key that has just been made
    obtain ⟨k, hlive, hpos, -⟩ := get_of_held hi h hspan
    unfold counted at hone
    rw [hlive] at hone
    dsimp only at hone
    omega
  · exact ⟨hi', hf⟩

theorem apart_drawn (hi : RedisInv r s) (hf : Fresh r s t c) {u v : Int} {d e : Count} (h : u = t ∧ d = c ∨ s.Drawn u d)
    (h' : v = t ∧ e = c ∨ s.Drawn v e) : Apart r u d v e := by
  rcases h with ⟨hu, hd⟩ | h
  · rcases h' with ⟨hv, he⟩ | h'
    · exact .inl (by rw [hd, he])
    · rw [hu, hd]
      exact apart_comm (hf.new v e h').2
  · rcases h' with ⟨hv, he⟩ | h'
    · rw [hv, he]
      exact (hf.new u d h).2
    · exact hi.apart u d v e h h'

theorem inv_decides (hi : RedisInv r s) {i : Nat} (hf : Fresh r s t c) : RedisInv r (s.decides r i t c) := by
  unfold Limiter.decides
  have hover : ∀ t c, Phase.passed ≠ .expires t c := nofun
  split
  · exact inv_setCall hi nofun
  · rename_i hle
    have hdrawn : ∀ u d, Limiter.Drawn { s.setCall i .passed with redisPassed := (t, c) :: s.redisPassed } u d →
        u = t ∧ d = c ∨ s.Drawn u d := by
      rintro u d (h | ⟨j, hj⟩)
      · rcases List.mem_cons.1 h with heq | h
        · cases heq
          exact .inl ⟨rfl, rfl⟩
        · exact .inr (.inl h)
      · exact .inr (.inr ⟨j, (calls_setCall hover hj).2⟩)
    refine ⟨hi.key, fun u d h => ?_, fun u d v e h h' => ?_, ?_, fun j u d h => ?_, fun j u d h => ?_, fun p hp => ?_⟩
    · rcases hdrawn u d h with ⟨rfl, rfl⟩ | hu
      · exact hf.behind
      · exact hi.behind u d hu
    · exact apart_drawn hi hf (hdrawn u d h) (hdrawn v e h')
    · refine List.nodup_cons.2 ⟨fun hmem => ?_, hi.nodup⟩
      obtain ⟨p, hp, heq⟩ := List.mem_map.1 hmem
      exact (hf.new p.1 p.2 (.inl hp)).1 heq
    · obtain ⟨-, hj⟩ := calls_setCall hover h
      refine ⟨fun v hv => ?_, fun l v hl => (hi.once j u d hj).2 l v (calls_setCall hover hl).2⟩
      rcases List.mem_cons.1 hv with heq | hv
      · exact (hf.new u d (.inr ⟨j, hj⟩)).1 (congrArg Prod.snd heq)
      · exact (hi.once j u d hj).1 v hv
    · exact hi.held j u d (calls_setCall hover h).2
    · rcases List.mem_cons.1 hp with rfl | hp
      · exact Nat.le_of_not_lt hle
      · exact hi.within p hp

/-- **The plain `INCR` has made the key**: from here on the call holds it. -/
theorem inv_holds (hi : RedisInv r s) {i : Nat} (hf : Fresh r s t c) (hone : c.value = 1) (hforever : s.key.deadline = none)
    (hsince : ∀ k, s.key.value = some k → k.since = c.since) : RedisInv r (s.setCall i (.expires t c)) := by
  have hcalls : ∀ j u d, (s.setCall i (.expires t c)).calls j = .expires u d →
      j = i ∧ u = t ∧ d = c ∨ s.calls j = .expires u d := by
    intro j u d h
    unfold Limiter.setCall at h
    dsimp only at h
    by_cases hj : j = i
    · rw [hj, Function.update_self] at h
      cases h
      exact .inl ⟨hj, rfl, rfl⟩
    · rw [Function.update_of_ne hj] at h
      exact .inr h
  have hdrawn : ∀ u d, (s.setCall i (.expires t c)).Drawn u d → u = t ∧ d = c ∨ s.Drawn u d := by
    rintro u d (h | ⟨j, hj⟩)
    · exact .inr (.inl h)
    · exact (hcalls j u d hj).imp (fun h => h.2) (fun h => .inr ⟨j, h⟩)
  refine ⟨hi.key, fun u d h => ?_, fun u d v e h h' => ?_, hi.nodup, fun j u d h => ?_, fun j u d h => ?_, hi.within⟩
  · rcases hdrawn u d h with ⟨rfl, rfl⟩ | hu
    · exact hf.behind
    · exact hi.behind u d hu
  · exact apart_drawn hi hf (hdrawn u d h) (hdrawn v e h')
  · rcases hcalls j u d h with ⟨rfl, rfl, rfl⟩ | hj
    · refine ⟨fun v hv => (hf.new v d (.inl hv)).1 rfl, fun l v hl => ?_⟩
      rcases hcalls l v d hl with ⟨rfl, -⟩ | hl
      · rfl
      · exact absurd rfl (hf.new v d (.inr ⟨l, hl⟩)).1
    · refine ⟨(hi.once j u d hj).1, fun l v hl => ?_⟩
      rcases hcalls l v d hl with ⟨rfl, rfl, rfl⟩ | hl
      · exact absurd rfl (hf.new u d (.inr ⟨j, hj⟩)).1
      · exact (hi.once j u d hj).2 l v hl
  · rcases hcalls j u d h with ⟨rfl, rfl, rfl⟩ | hj
    · exact ⟨hone, hforever, hsince⟩
    · exact hi.held j u d hj

theorem inv_expire (hi : RedisInv r s) (hspan : 0 < r.span) {i : Nat} {applied replied : Bool}
    (hstep : step r s (.expire i applied replied) = some s') : RedisInv r s' := by
  unfold step at hstep
  dsimp only at hstep
  split at hstep
  · rename_i t c hcall
    -- the call goes on without its key, and with its count
    have hover : ∀ t c, Phase.over ≠ .expires t c := nofun
    have hi' : RedisInv r (s.setCall i .over) := inv_setCall hi hover
    obtain ⟨hnew, hone⟩ := hi.once i t c hcall
    obtain ⟨hvalue, -, hsince⟩ := hi.held i t c hcall
    have hf : Fresh r (s.setCall i .over) t c := by
      refine ⟨hi.behind t c (.inr ⟨i, hcall⟩), fun u d h => ⟨?_, hi.apart u d t c (drawn_setCall hover h) (.inr ⟨i, hcall⟩)⟩⟩
      rintro rfl
      rcases h with h | ⟨j, hj⟩
      · exact hnew u h
      · exact (calls_setCall hover hj).1 (hone j u (calls_setCall hover hj).2)
    obtain ⟨k, hget, -, hs⟩ := get_of_held hi hcall hspan
    have hnobody : ∀ j u d, (s.setCall i .over).calls j ≠ .expires u d := by
      intro j u d h
      obtain ⟨hne, hj⟩ := calls_setCall hover h
      obtain ⟨hvalue', -, hsince'⟩ := hi.held j u d hj
      have hk := Expiring.get_eq_some hget
      have hd : d = c := by
        cases c
        cases d
        cases hvalue
        cases hvalue'
        exact congrArg (Count.mk 1) ((hsince' k hk).symm.trans hs)
      exact hne (hone j u (hd ▸ hj))
    have hexpired : RedisInv r { s.setCall i .over with key := s.key.expire s.now r.span } ∧
        Fresh r { s.setCall i .over with key := s.key.expire s.now r.span } t c :=
      ⟨inv_key hi' (keyOk_expire hspan hget hi.key) (fun u d h => behind_expire hspan hget (hi'.behind u d h))
        fun j u d h => absurd h (hnobody j u d), behind_expire hspan hget hf.behind, hf.new⟩
    have hsame : ∀ phase, Function.update (Function.update s.calls i .over) i phase = Function.update s.calls i phase :=
      fun phase => Function.update_idem _ _ _
    cases applied with
    | false =>
      cases hstep
      exact inv_setCall hi nofun
    | true =>
      cases replied with
      | false =>
        cases hstep
        have h : RedisInv r (Limiter.setCall { s.setCall i .over with key := s.key.expire s.now r.span } i .fallsBack) :=
          inv_setCall hexpired.1 nofun
        unfold Limiter.setCall at h ⊢
        dsimp only at h
        rwa [hsame] at h
      | true =>
        cases hstep
        have h := inv_decides (i := i) hexpired.1 hexpired.2
        unfold Limiter.decides Limiter.setCall at h ⊢
        dsimp only at h
        rwa [hsame, hsame] at h
  · cases hstep

theorem redis_step (hspan : 0 < r.span) (hi : RedisInv r s) {act : Act} (hstep : step r s act = some s') : RedisInv r s' := by
  cases act with
  | elapses ms =>
    cases hstep
    exact { hi with
      key := ⟨fun k hk => ⟨(hi.key.since k hk).1, by have := (hi.key.since k hk).2; show k.since ≤ s.now + ms; omega⟩,
        hi.key.deadline⟩
      behind := fun t c h => { hi.behind t c h with
        drawn := ⟨(hi.behind t c h).drawn.1, by have := (hi.behind t c h).drawn.2; show t ≤ s.now + ms; omega⟩ } }
  | unreachable i =>
    obtain ⟨-, heq⟩ := Option.ite_none_right_eq_some.1 hstep
    cases heq
    exact inv_setCall hi nofun
  | eval i applied replied =>
    obtain ⟨-, heq⟩ := Option.ite_none_right_eq_some.1 hstep
    obtain ⟨hi', hf⟩ := inv_script hi hspan
    cases applied <;> cases replied <;> cases heq
    · exact inv_setCall hi nofun
    · exact inv_setCall hi nofun
    · exact inv_setCall hi' nofun
    · exact inv_decides hi' hf
  | incr i applied replied =>
    obtain ⟨-, heq⟩ := Option.ite_none_right_eq_some.1 hstep
    obtain ⟨hi', hf⟩ := inv_incr hi hspan
    cases applied <;> cases replied <;> cases heq
    · exact inv_setCall hi nofun
    · exact inv_setCall hi nofun
    · exact inv_setCall hi' nofun
    · rw [if_pos rfl]
      split
      · rename_i hone
        refine inv_holds hi' hf hone ?_ fun k hk => by cases hk; rfl
        unfold counted at hone
        unfold incr Expiring.update
        cases hget : s.key.get s.now with
        | none => rfl
        | some k =>
          -- a key that is there has counted before
          rw [hget] at hone
          have := (hi.key.since k (Expiring.get_eq_some hget)).1
          dsimp only at hone
          omega
      · exact inv_decides hi' hf
  | expire i applied replied => exact inv_expire hi hspan hstep
  | ttl i replied =>
    obtain ⟨-, heq⟩ := Option.ite_none_right_eq_some.1 hstep
    cases heq
    cases replied <;> exact inv_setCall hi nofun
  | sliding i worker =>
    obtain ⟨-, heq⟩ := Option.ite_none_right_eq_some.1 hstep
    cases heq
    unfold Limiter.slides
    dsimp only
    split
    · exact inv_setCall hi nofun
    · have h : RedisInv r (s.setCall i .passed) := inv_setCall hi nofun
      exact { h with }

theorem two_epochs (hspan : 0 < r.span) (hi : RedisInv r s) (T : Int) : ∃ a b, ∀ p ∈ s.redisPassed,
    T ≤ p.1 → p.1 < T + r.span → p.2.since = a ∨ p.2.since = b := by
  by_cases hone : ∃ p ∈ s.redisPassed, T ≤ p.1 ∧ p.1 < T + r.span
  · obtain ⟨p, hp, hp₁, hp₂⟩ := hone
    by_cases htwo : ∃ q ∈ s.redisPassed, (T ≤ q.1 ∧ q.1 < T + r.span) ∧ q.2.since ≠ p.2.since
    · obtain ⟨q, hq, ⟨hq₁, hq₂⟩, hne⟩ := htwo
      refine ⟨p.2.since, q.2.since, fun x hx hx₁ hx₂ => ?_⟩
      -- of three keys the second would have lived within the window, with draws on both sides
      have hpq := hi.apart _ _ _ _ (.inl hp) (.inl hq)
      have hpx := hi.apart _ _ _ _ (.inl hp) (.inl hx)
      have hqx := hi.apart _ _ _ _ (.inl hq) (.inl hx)
      have hp₃ := (hi.behind _ _ (.inl hp)).drawn.1
      have hq₃ := (hi.behind _ _ (.inl hq)).drawn.1
      have hx₃ := (hi.behind _ _ (.inl hx)).drawn.1
      unfold Apart at hpq hpx hqx
      omega
    · refine ⟨p.2.since, p.2.since, fun x hx hx₁ hx₂ => .inl ?_⟩
      by_contra hne
      exact htwo ⟨x, hx, ⟨hx₁, hx₂⟩, hne⟩
  · exact ⟨0, 0, fun x hx hx₁ hx₂ => absurd ⟨x, hx, hx₁, hx₂⟩ hone⟩

theorem redis_le (hspan : 0 < r.span) (hi : RedisInv r s) (T : Int) :
    (s.redisPassed.filter (r.within T ·.1)).length ≤ 2 * r.limit := by
  obtain ⟨a, b, htwo⟩ := two_epochs hspan hi T
  have hnodup : ((s.redisPassed.filter (r.within T ·.1)).map
      (fun p => (p.2.since, p.2.value))).Nodup := by
    have hsub : ((s.redisPassed.filter (r.within T ·.1)).map Prod.snd).Nodup :=
      (List.filter_sublist.map Prod.snd).nodup hi.nodup
    have hinj : Function.Injective (fun c : Count => (c.since, c.value)) := fun c d h => by
      cases c
      cases d
      cases h
      rfl
    have h := hsub.map hinj
    rwa [List.map_map] at h
  rw [← List.length_map (f := fun p : Int × Count => (p.2.since, p.2.value)), ← List.toFinset_card_of_nodup hnodup]
  calc _ ≤ (({a, b} : Finset Int) ×ˢ Finset.Icc 1 r.limit).card := Finset.card_le_card fun x hx => by
        obtain ⟨p, hp, rfl⟩ := List.mem_map.1 (List.mem_toFinset.1 hx)
        obtain ⟨hmem, hin⟩ := List.mem_filter.1 hp
        have hin := of_decide_eq_true hin
        refine Finset.mem_product.2 ⟨?_, Finset.mem_Icc.2 ⟨(hi.behind _ _ (.inl hmem)).pos, hi.within p hmem⟩⟩
        rcases htwo p hmem hin.1 hin.2 with h | h
        · exact Finset.mem_insert.2 (.inl h)
        · exact Finset.mem_insert.2 (.inr (Finset.mem_singleton.2 h))
    _ = ({a, b} : Finset Int).card * r.limit := by rw [Finset.card_product, Nat.card_Icc, Nat.add_sub_cancel]
    _ ≤ 2 * r.limit := Nat.mul_le_mul_right _ Finset.card_le_two

/-! ### the sliding window -/

variable (r) in
/-- The bucket of a worker, and whom it has let through. -/
structure Bucket (now : Int) (bucket passed : List Int) : Prop where
  times : ∀ t ∈ passed, t ≤ now
  /-- What the bucket has dropped is out of the window for good. -/
  kept : bucket.filter (now - r.span < ·) = passed.filter (now - r.span < ·)
  bound : ∀ T, (passed.filter (r.within T)).length ≤ r.limit

theorem filter_later {l : List Int} {a b : Int} (h : a ≤ b) : (l.filter (a < ·)).filter (b < ·) = l.filter (b < ·) := by
  rw [List.filter_filter]
  refine List.filter_congr fun t _ => ?_
  rw [Bool.eq_iff_iff, Bool.and_eq_true, decide_eq_true_iff, decide_eq_true_iff]
  omega

theorem bucket_later {bucket passed : List Int} (hb : Bucket r now bucket passed) {later : Int} (hle : now ≤ later) :
    Bucket r later bucket passed := by
  have hspan : now - r.span ≤ later - r.span := Int.sub_le_sub_right hle _
  refine ⟨fun t ht => Int.le_trans (hb.times t ht) hle, ?_, hb.bound⟩
  rw [← filter_later hspan, hb.kept, filter_later hspan]

/-- **One more is let through** where the bucket has room: whoever else is in a window with it is in the bucket. -/
theorem bucket_pass {bucket passed : List Int} (hb : Bucket r now bucket passed)
    (hroom : ¬ r.limit ≤ (bucket.filter (now - r.span < ·)).length) :
    Bucket r now (bucket.filter (now - r.span < ·) ++ [now]) (passed ++ [now]) := by
  refine ⟨fun t ht => ?_, ?_, fun T => ?_⟩
  · rcases List.mem_append.1 ht with ht | ht
    · exact hb.times t ht
    · exact Int.le_of_eq (List.mem_singleton.1 ht)
  · rw [List.filter_append, List.filter_append, filter_later (Int.le_refl _), hb.kept]
  · rw [List.filter_append, List.length_append, List.filter_singleton]
    cases hin : r.within T now with
    | false => exact hb.bound T
    | true =>
      have hin := of_decide_eq_true hin
      have hsub : (passed.filter (r.within T)).length ≤ (passed.filter (now - r.span < ·)).length := by
        refine (List.monotone_filter_right _ fun t ht => ?_).length_le
        have ht := of_decide_eq_true ht
        exact decide_eq_true (by omega)
      rw [hb.kept] at hroom
      show _ + 1 ≤ _
      omega

theorem decides_memory (i : Nat) (t : Int) (c : Count) (w : Nat) :
    ((s.decides r i t c).now, (s.decides r i t c).memory w, (s.decides r i t c).memoryPassed w) =
      (s.now, s.memory w, s.memoryPassed w) := by
  unfold Limiter.decides
  split <;> rfl

theorem memory_step {w : Nat} (hb : Bucket r s.now (s.memory w) (s.memoryPassed w)) {act : Act}
    (hstep : step r s act = some s') : Bucket r s'.now (s'.memory w) (s'.memoryPassed w) := by
  have hsame : (s'.now, s'.memory w, s'.memoryPassed w) = (s.now, s.memory w, s.memoryPassed w) →
      Bucket r s'.now (s'.memory w) (s'.memoryPassed w) := by
    intro h
    obtain ⟨hnow, h⟩ := Prod.mk.inj h
    obtain ⟨hmemory, hpassed⟩ := Prod.mk.inj h
    rw [hnow, hmemory, hpassed]
    exact hb
  cases act with
  | elapses ms =>
    cases hstep
    exact bucket_later hb (Int.le_add_of_nonneg_right (Int.natCast_nonneg ms))
  | unreachable i =>
    obtain ⟨-, heq⟩ := Option.ite_none_right_eq_some.1 hstep
    cases heq
    exact hsame rfl
  | eval i applied replied =>
    obtain ⟨-, heq⟩ := Option.ite_none_right_eq_some.1 hstep
    cases applied <;> cases replied <;> cases heq
    · exact hsame rfl
    · exact hsame rfl
    · exact hsame rfl
    · exact hsame (decides_memory i _ _ w)
  | incr i applied replied =>
    obtain ⟨-, heq⟩ := Option.ite_none_right_eq_some.1 hstep
    cases applied <;> cases replied <;> cases heq
    · exact hsame rfl
    · exact hsame rfl
    · exact hsame rfl
    · refine hsame ?_
      rw [if_pos rfl]
      split
      · rfl
      · exact decides_memory i _ _ w
  | expire i applied replied =>
    unfold step at hstep
    dsimp only at hstep
    split at hstep
    · cases applied <;> cases replied <;> cases hstep
      · exact hsame rfl
      · exact hsame rfl
      · exact hsame rfl
      · exact hsame (decides_memory i _ _ w)
    · cases hstep
  | ttl i replied =>
    obtain ⟨-, heq⟩ := Option.ite_none_right_eq_some.1 hstep
    cases heq
    exact hsame rfl
  | sliding i worker =>
    obtain ⟨-, heq⟩ := Option.ite_none_right_eq_some.1 hstep
    cases heq
    unfold Limiter.slides
    dsimp only
    split
    · exact hb
    · rename_i hroom
      show Bucket r s.now (Function.update s.memory worker _ w) (Function.update s.memoryPassed worker _ w)
      by_cases hw : w = worker
      · subst hw
        rw [Function.update_self, Function.update_self]
        exact bucket_pass hb hroom
      · rw [Function.update_of_ne hw, Function.update_of_ne hw]
        exact hb

end

/-- **Whatever fails on the way, a window lets only so many pass**: in any `window` seconds Redis lets through twice `limit`,
from the end of one key and the beginning of the next, and each worker that has lost Redis `limit` more. -/
theorem passed_bounded (r : Rule) (s : Limiter) (h : Reaches (step r) .start s) (T : Int) :
    (s.redisPassed.filter (r.within T ·.1)).length ≤ 2 * r.limit ∧
      ∀ w, ((s.memoryPassed w).filter (r.within T)).length ≤ r.limit := by
  constructor
  · by_cases hspan : 0 < r.span
    · have hstart : RedisInv r .start :=
        ⟨⟨nofun, nofun⟩, fun _ _ h => h.elim nofun nofun, fun _ _ _ _ h => h.elim nofun nofun, .nil, nofun, nofun, nofun⟩
      exact redis_le hspan (h.invariant hstart fun _ _ _ hi _ hstep => redis_step hspan hi hstep) T
    · rw [List.filter_eq_nil_iff.2 fun p _ hp => by have := of_decide_eq_true hp; omega]
      exact Nat.zero_le _
  · intro w
    have hstart : Bucket r Limiter.start.now (Limiter.start.memory w) (Limiter.start.memoryPassed w) :=
      ⟨fun _ ht => (nomatch ht), rfl, fun _ => Nat.zero_le _⟩
    have hb : Bucket r s.now (s.memory w) (s.memoryPassed w) :=
      h.invariant (P := fun s => Bucket r s.now (s.memory w) (s.memoryPassed w)) hstart
        fun _ _ _ hb _ hstep => memory_step hb hstep
    exact hb.bound T

/-- Three calls in a second where two in a minute are allowed: the second key of Redis, then a worker without it. -/
def burst : List Act :=
  [.eval 0 true true, .elapses 59999, .eval 1 true true, .elapses 1, .eval 2 true false, .incr 2 true true, .unreachable 3,
    .sliding 3 0]

theorem passed_bounded_burst : (((Trace.play (step ⟨2, 60⟩) .start burst).redisPassed.filter
    (Rule.within ⟨2, 60⟩ 59000 ·.1)).length ≤ 4 ∧
    ∀ w, (((Trace.play (step ⟨2, 60⟩) .start burst).memoryPassed w).filter (Rule.within ⟨2, 60⟩ 59000)).length ≤ 2) :=
  passed_bounded ⟨2, 60⟩ _ (Trace.reaches_play (by decide)) 59000

/-! ### who is throttled is let through again -/

/-- Only the script makes the key, not the plain `INCR` whose `EXPIRE` may be lost. -/
def Scripted (_ : Limiter) : Act → Prop
  | .incr _ applied _ => applied = false
  | _ => True

/-- What there is of the key ends within a window. -/
structure Ends (r : Rule) (s : Limiter) : Prop where
  key : s.key.value = none ∨ ∃ d, s.key.deadline = some d ∧ d ≤ s.now + r.span
  calls : ∀ i t c, s.calls i ≠ .expires t c

theorem Ends.setCall {r : Rule} {s : Limiter} (h : Ends r s) {i : Nat} {phase : Phase}
    (hphase : ∀ t c, phase ≠ .expires t c) : Ends r (s.setCall i phase) :=
  ⟨h.key, fun j t c hj => h.calls j t c (calls_setCall hphase hj).2⟩

theorem ends_script {r : Rule} {s : Limiter} (h : Ends r s) : Ends r { s with key := script r s.key s.now } := by
  refine ⟨?_, h.calls⟩
  unfold script
  dsimp only
  split
  · unfold Expiring.expire Expiring.put
    rw [get_incr]
    dsimp only
    split
    · exact .inl rfl
    · exact .inr ⟨_, rfl, Int.le_refl _⟩
  · rename_i hmore
    unfold counted at hmore
    unfold incr Expiring.update
    cases hget : s.key.get s.now with
    | none =>
      rw [hget] at hmore
      exact absurd rfl hmore
    | some k =>
      rcases h.key with hnone | hends
      · exact absurd (hnone.symm.trans (Expiring.get_eq_some hget)) nofun
      · exact .inr hends

theorem ends_decides {r : Rule} {s : Limiter} (h : Ends r s) (i : Nat) (t : Int) (c : Count) : Ends r (s.decides r i t c) := by
  unfold Limiter.decides
  split
  · exact h.setCall nofun
  · have hpassed : Ends r (s.setCall i .passed) := h.setCall nofun
    exact ⟨hpassed.key, hpassed.calls⟩

theorem ends_step {r : Rule} {s s' : Limiter} (h : Ends r s) {act : Act} (hok : Scripted s act)
    (hstep : step r s act = some s') : Ends r s' := by
  cases act with
  | elapses ms =>
    cases hstep
    refine ⟨h.key.imp_right fun ⟨d, hd, hle⟩ => ⟨d, hd, ?_⟩, h.calls⟩
    show d ≤ s.now + ms + r.span
    omega
  | unreachable i =>
    obtain ⟨-, heq⟩ := Option.ite_none_right_eq_some.1 hstep
    cases heq
    exact h.setCall nofun
  | eval i applied replied =>
    obtain ⟨-, heq⟩ := Option.ite_none_right_eq_some.1 hstep
    cases applied <;> cases replied <;> cases heq
    · exact h.setCall nofun
    · exact h.setCall nofun
    · exact (ends_script h).setCall nofun
    · exact ends_decides (ends_script h) i _ _
  | incr i applied replied =>
    cases hok
    obtain ⟨-, heq⟩ := Option.ite_none_right_eq_some.1 hstep
    cases heq
    exact h.setCall nofun
  | expire i applied replied =>
    unfold step at hstep
    dsimp only at hstep
    split at hstep
    · rename_i t c hcall
      exact absurd hcall (h.calls i t c)
    · cases hstep
  | ttl i replied =>
    obtain ⟨-, heq⟩ := Option.ite_none_right_eq_some.1 hstep
    cases heq
    cases replied <;> exact h.setCall nofun
  | sliding i worker =>
    obtain ⟨-, heq⟩ := Option.ite_none_right_eq_some.1 hstep
    cases heq
    unfold Limiter.slides
    dsimp only
    split
    · exact h.setCall nofun
    · have hpassed : Ends r (s.setCall i .passed) := h.setCall nofun
      exact ⟨hpassed.key, hpassed.calls⟩

/-- **Nobody is throttled for good**: however many calls there were, and whatever was lost of them, a call is let through a
window later, where the script is what counts. -/
theorem throttle_ends (r : Rule) (s : Limiter) (h : Trace.Runs (step r) Scripted .start s) (i ms : Nat) (hlimit : 1 ≤ r.limit)
    (hlater : r.span ≤ ms) (hcall : s.calls i = .arrives) :
    ∃ s', Trace.exec (step r) s [.elapses ms, .eval i true true] = some s' ∧ s'.calls i = .passed := by
  have hends : Ends r s := h.invariant ⟨.inl rfl, nofun⟩ fun _ _ _ h hok hstep => ends_step h hok hstep
  have hgone : s.key.get (s.now + ms) = none := by
    unfold Expiring.get
    rcases hends.key with hnone | ⟨d, hd, hle⟩
    · rw [hnone, ite_self]
    · rw [hd]
      exact if_pos (decide_eq_true (by omega))
  have hfirst : counted s.key (s.now + ms) = ⟨1, s.now + ms⟩ := by
    unfold counted
    rw [hgone]
  have hpasses : ¬ r.limit < 1 := Nat.not_lt.2 hlimit
  refine ⟨Limiter.decides r { s with now := s.now + ms, key := script r s.key (s.now + ms) } i (s.now + ms)
    ⟨1, s.now + ms⟩, ?_, ?_⟩
  · show (step r { s with now := s.now + ms } (.eval i true true)).bind some = _
    unfold step
    dsimp only
    rw [if_pos hcall, hfirst]
    rfl
  · unfold Limiter.decides
    rw [if_neg hpasses]
    exact Function.update_self i .passed s.calls

/-- The third call of a minute is turned away; one a minute later is not. -/
theorem throttle_ends_third : ∃ s', Trace.exec (step ⟨2, 60⟩)
    (Trace.play (step ⟨2, 60⟩) .start [.eval 0 true true, .eval 1 true true, .eval 2 true true, .ttl 2 true])
    [.elapses 60000, .eval 3 true true] = some s' ∧ s'.calls 3 = .passed :=
  throttle_ends ⟨2, 60⟩ _ ((((Trace.Runs.refl.next (.eval 0 true true) trivial rfl).next (.eval 1 true true) trivial rfl).next
    (.eval 2 true true) trivial rfl).next (.ttl 2 true) trivial rfl) 3 60000 (by decide) (by decide) (by decide)

end RateLimit
end MyGpt
