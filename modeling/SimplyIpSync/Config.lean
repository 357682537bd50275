import SimplyIpSync.Middleware
import SimplyIpSync.Net

/-!
# The client address (`resolve_client_ip` in `src/config.rs`)

A request arrives from a TCP peer with header lines, in the order they were sent.  When the peer is
a trusted proxy the forwarding chain is read from the right, skipping trusted hops.

The chain of a request is the join of all its `X-Forwarded-For` lines, and a proxy adds the address
it saw at the end: to the last line, or as a further line.  The lookup of a header returns the first
line only.  `resolveClientIp_forwarded` says for every request what that makes of the address the
proxy added.
-/

namespace SimplyIpSync.Config

open SimplyIpSync.Crypto SimplyIpSync.Bogon SimplyIpSync.Net SimplyIpSync.Middleware

/-! ### Headers -/

/-- Header lines in the order received: a lower-case name and the bytes of the value. -/
abbrev HeaderMap := List (String × Bytes)

/-- `HeaderMap::get`: the value of the first line with this name. -/
def HeaderMap.get (headers : HeaderMap) (name : String) : Option Bytes :=
  (headers.find? fun line => line.1 = name).map Prod.snd

/-- `HeaderValue::to_str` on the first line. -/
def HeaderMap.getStr (headers : HeaderMap) (name : String) : Option Bytes :=
  (headers.get name).filter fun value => value.all isVisible

/-- The name of a line of the forwarding chain. -/
def xForwardedFor : String := "x-forwarded-for"

/-- The name of the fallback header. -/
def xRealIp : String := "x-real-ip"

/-! ### The walk -/

/-- `str::split(',')`. -/
def splitCommas : Bytes → List Bytes
  | [] => [[]]
  | b :: rest =>
      if b = 44 then [] :: splitCommas rest
      else
        match splitCommas rest with
        | item :: items => (b :: item) :: items
        | [] => [[b]]

/-- The addresses of a line: its items, trimmed, the unparseable ones left out, normalized. -/
def forwardedHops (line : Bytes) : List IpAddr :=
  ((splitCommas line).map trim).filterMap fun item =>
    if item = [] then none else (parseIpAddr item).map normalizeIp

/-- The walk from the right: the last hop that is not trusted. -/
def forwardedClient (trusted : List IpNetwork) (line : Bytes) : Option IpAddr :=
  (forwardedHops line).reverse.find? fun ip => !isTrusted ip trusted

/-- The address of `X-Real-IP`. -/
def realIp (headers : HeaderMap) : Option IpAddr :=
  ((headers.getStr xRealIp).bind fun value => parseIpAddr (trim value)).map normalizeIp

/-- `resolve_client_ip`. -/
def resolveClientIp (peer : IpAddr) (headers : HeaderMap) (trusted : List IpNetwork) : IpAddr :=
  let peer := normalizeIp peer
  if !isTrusted peer trusted then peer
  else
    match (headers.getStr xForwardedFor).bind (forwardedClient trusted) with
    | some client => client
    | none =>
        match realIp headers with
        | some client => client
        | none => peer

/-! ### The proxy -/

/-- How a proxy adds an address to the forwarding chain. -/
inductive Forwarding
  | extendLine
  | furtherLine
  deriving DecidableEq, Repr

/-- Put `item` at the end of the last line of the chain; without a line, add one. -/
def extendLast (item : Bytes) : HeaderMap → HeaderMap
  | [] => [(xForwardedFor, item)]
  | (name, value) :: rest =>
      if name = xForwardedFor ∧ rest.all (fun line => line.1 ≠ xForwardedFor) then
        (name, value ++ 44 :: item) :: rest
      else (name, value) :: extendLast item rest

/-- The header lines that leave the proxy. -/
def forward (how : Forwarding) (item : Bytes) (received : HeaderMap) : HeaderMap :=
  match how with
  | .extendLine => extendLast item received
  | .furtherLine => received ++ [(xForwardedFor, item)]

/-- How many lines of the chain there are. -/
def chainLines (headers : HeaderMap) : ℕ := headers.countP fun line => line.1 = xForwardedFor

/-- The first line of the chain is the one the proxy writes to. -/
def FirstIsLast (how : Forwarding) (received : HeaderMap) : Prop :=
  chainLines received ≤ match how with
    | .extendLine => 1
    | .furtherLine => 0

/-- The first line of the chain, if there is one, is text. -/
def FirstIsText (headers : HeaderMap) : Prop :=
  ∀ value, headers.get xForwardedFor = some value → value.all isVisible

/-- The address that header lines name by themselves: the client of the first line of the chain,
else `X-Real-IP`. -/
def namedClient (trusted : List IpNetwork) (headers : HeaderMap) : Option IpAddr :=
  ((headers.getStr xForwardedFor).bind (forwardedClient trusted)).or (realIp headers)

theorem resolveClientIp_eq {peer : IpAddr} {trusted : List IpNetwork}
    (hpeer : isTrusted (normalizeIp peer) trusted) (headers : HeaderMap) :
    resolveClientIp peer headers trusted =
      (namedClient trusted headers).getD (normalizeIp peer) := by
  simp only [resolveClientIp, namedClient, hpeer, Bool.not_true, Bool.false_eq_true, if_false]
  cases (headers.getStr xForwardedFor).bind (forwardedClient trusted) with
  | some client => rfl
  | none =>
      cases realIp headers with
      | some client => rfl
      | none => rfl

/-! ### Splitting -/

theorem splitCommas_ne_nil (text : Bytes) : splitCommas text ≠ [] := by
  cases text with
  | nil => simp [splitCommas]
  | cons b rest =>
      rw [splitCommas]
      split
      · simp
      · split
        · simp
        · simp

theorem splitCommas_single {item : Bytes} (hitem : 44 ∉ item) : splitCommas item = [item] := by
  induction item with
  | nil => rfl
  | cons b rest ih =>
      rw [List.mem_cons, not_or] at hitem
      rw [splitCommas, if_neg (Ne.symm hitem.1), ih hitem.2]

/-- An item without a comma is the last of the line that ends with it. -/
theorem splitCommas_append {item : Bytes} (hitem : 44 ∉ item) (line : Bytes) :
    splitCommas (line ++ 44 :: item) = splitCommas line ++ [item] := by
  induction line with
  | nil =>
      show splitCommas (44 :: item) = [[], item]
      rw [splitCommas, if_pos rfl, splitCommas_single hitem]
  | cons b line ih =>
      rw [List.cons_append, splitCommas, splitCommas, ih]
      by_cases hb : b = 44
      · rw [if_pos hb, if_pos hb, List.cons_append]
      · rw [if_neg hb, if_neg hb]
        cases hsplit : splitCommas line with
        | nil => exact absurd hsplit (splitCommas_ne_nil line)
        | cons first others => rfl

section Forwarded

variable {trusted : List IpNetwork} {item : Bytes} {c : IpAddr}

/-- `item` is the text of the untrusted address `c`, as a proxy writes it. -/
structure Forwards (trusted : List IpNetwork) (item : Bytes) (c : IpAddr) : Prop where
  text : item.all isVisible
  single : 44 ∉ item
  parses : parseIpAddr (trim item) = some c
  untrusted : isTrusted (normalizeIp c) trusted = false

/-- The walk stops at once at an untrusted last hop. -/
theorem forwardedClient_of_last (h : Forwards trusted item c) {line : Bytes}
    {before : List Bytes} (hsplit : splitCommas line = before ++ [item]) :
    forwardedClient trusted line = some (normalizeIp c) := by
  have hne : trim item ≠ [] := by
    intro hnil
    have hempty : parseIpAddr [] = none := by decide
    have hparse := h.parses
    rw [hnil, hempty] at hparse
    cases hparse
  have hhops : forwardedHops line =
      (before.map trim).filterMap
        (fun item => if item = [] then none else (parseIpAddr item).map normalizeIp) ++
        [normalizeIp c] := by
    rw [forwardedHops, hsplit, List.map_append, List.filterMap_append]
    simp only [List.map_cons, List.map_nil, List.filterMap_cons, List.filterMap_nil, if_neg hne,
      h.parses, Option.map_some]
  rw [forwardedClient, hhops, List.reverse_append, List.reverse_singleton, List.singleton_append,
    List.find?_cons_of_pos]
  simp [h.untrusted]

theorem get_cons_self (name : String) (value : Bytes) (rest : HeaderMap) :
    HeaderMap.get ((name, value) :: rest) name = some value := by
  simp [HeaderMap.get]

theorem get_cons_of_ne {name other : String} (h : name ≠ other) (value : Bytes)
    (rest : HeaderMap) : HeaderMap.get ((name, value) :: rest) other = HeaderMap.get rest other := by
  simp [HeaderMap.get, h]

theorem get_eq_none_iff {headers : HeaderMap} {name : String} :
    headers.get name = none ↔ ∀ line ∈ headers, line.1 ≠ name := by
  simp [HeaderMap.get]

theorem chainLines_eq_zero_iff {headers : HeaderMap} :
    chainLines headers = 0 ↔ headers.get xForwardedFor = none := by
  rw [get_eq_none_iff, chainLines, List.countP_eq_zero]
  simp

/-- The proxy leaves every other header alone. -/
theorem get_forward_of_ne {name : String} (h : name ≠ xForwardedFor) (how : Forwarding)
    (received : HeaderMap) : (forward how item received).get name = received.get name := by
  cases how with
  | furtherLine =>
      simp only [forward, HeaderMap.get, List.find?_append]
      have hlast : ([(xForwardedFor, item)] : HeaderMap).find? (fun line => line.1 = name) = none := by
        simp [Ne.symm h]
      rw [hlast, Option.or_none]
  | extendLine =>
      show (extendLast item received).get name = received.get name
      induction received with
      | nil => exact get_cons_of_ne (Ne.symm h) item []
      | cons line rest ih =>
          obtain ⟨name', value⟩ := line
          rw [extendLast]
          split
          · rename_i hlast
            rw [hlast.1, get_cons_of_ne (Ne.symm h), get_cons_of_ne (Ne.symm h)]
          · by_cases hname : name' = name
            · rw [hname, get_cons_self, get_cons_self]
            · rw [get_cons_of_ne hname, get_cons_of_ne hname, ih]

/-- **The first line of the chain behind the proxy.**  The proxy's address is on it only when there
is no other line before. -/
theorem get_forward (how : Forwarding) (received : HeaderMap) :
    (FirstIsLast how received ∧ received.get xForwardedFor = none ∧
        (forward how item received).get xForwardedFor = some item) ∨
      (FirstIsLast how received ∧ ∃ value, received.get xForwardedFor = some value ∧
        (forward how item received).get xForwardedFor = some (value ++ 44 :: item)) ∨
      (¬FirstIsLast how received ∧
        (forward how item received).get xForwardedFor = received.get xForwardedFor) := by
  cases how with
  | furtherLine =>
      cases hget : received.get xForwardedFor with
      | none =>
          refine Or.inl ⟨(chainLines_eq_zero_iff.mpr hget).le, rfl, ?_⟩
          have hfind : received.find? (fun line => line.1 = xForwardedFor) = none := by
            simpa [HeaderMap.get] using hget
          simp [forward, HeaderMap.get, List.find?_append, hfind]
      | some value =>
          refine Or.inr (Or.inr ⟨?_, ?_⟩)
          · intro hfirst
            rw [chainLines_eq_zero_iff.mp (Nat.le_zero.mp hfirst)] at hget
            cases hget
          · obtain ⟨line, hfind, hvalue⟩ := Option.map_eq_some_iff.mp hget
            simp [forward, HeaderMap.get, List.find?_append, hfind, hvalue]
  | extendLine =>
      show (chainLines received ≤ 1 ∧ _ ∧ (extendLast item received).get xForwardedFor = _) ∨
        (chainLines received ≤ 1 ∧ ∃ value, _ ∧
          (extendLast item received).get xForwardedFor = _) ∨
        (¬chainLines received ≤ 1 ∧ (extendLast item received).get xForwardedFor = _)
      induction received with
      | nil => exact Or.inl ⟨Nat.zero_le 1, rfl, get_cons_self ..⟩
      | cons line rest ih =>
          obtain ⟨name, value⟩ := line
          by_cases hname : name = xForwardedFor
          · have hcount : chainLines ((name, value) :: rest) = chainLines rest + 1 := by
              simp [chainLines, hname]
            by_cases hrest : rest.all (fun line => line.1 ≠ xForwardedFor)
            · have hzero : chainLines rest = 0 := by
                rw [chainLines_eq_zero_iff, get_eq_none_iff]
                simpa using hrest
              refine Or.inr (Or.inl ⟨by omega, value, ?_, ?_⟩)
              · rw [hname, get_cons_self]
              · rw [extendLast, if_pos ⟨hname, hrest⟩, hname, get_cons_self]
            · have hpos : chainLines rest ≠ 0 := by
                rw [Ne, chainLines_eq_zero_iff, get_eq_none_iff]
                simpa using hrest
              refine Or.inr (Or.inr ⟨by omega, ?_⟩)
              rw [extendLast, if_neg (fun hboth => hrest hboth.2), hname, get_cons_self,
                get_cons_self]
          · have hcount : chainLines ((name, value) :: rest) = chainLines rest := by
              simp [chainLines, hname]
            rw [hcount, extendLast, if_neg (fun hboth => hname hboth.1), get_cons_of_ne hname,
              get_cons_of_ne hname]
            exact ih

/-- Read as text, the first line behind the proxy ends with its item, or is what was received. -/
theorem getStr_forward (hitem : item.all isVisible) (how : Forwarding) (received : HeaderMap) :
    ((FirstIsLast how received ∧ FirstIsText received) ∧
        ∃ line, (forward how item received).getStr xForwardedFor = some line ∧
          (line = item ∨ ∃ value, line = value ++ 44 :: item)) ∨
      (¬(FirstIsLast how received ∧ FirstIsText received) ∧
        (forward how item received).getStr xForwardedFor = received.getStr xForwardedFor) := by
  rcases @get_forward item how received with
    ⟨hfirst, hnone, hget⟩ | ⟨hfirst, value, hvalue, hget⟩ | ⟨hnot, hget⟩
  · refine Or.inl ⟨⟨hfirst, ?_⟩, item, ?_, Or.inl rfl⟩
    · intro value hvalue
      rw [hnone] at hvalue
      cases hvalue
    · rw [HeaderMap.getStr, hget, Option.filter_some, if_pos hitem]
  · have htext : FirstIsText received ↔ value.all isVisible := by
      constructor
      · intro h
        exact h value hvalue
      · intro h value' hvalue'
        obtain rfl := Option.some.inj (hvalue.symm.trans hvalue')
        exact h
    have hsep : isVisible 44 := by decide
    by_cases hvisible : value.all isVisible
    · refine Or.inl ⟨⟨hfirst, htext.mpr hvisible⟩, value ++ 44 :: item, ?_, Or.inr ⟨value, rfl⟩⟩
      rw [HeaderMap.getStr, hget, Option.filter_some, if_pos]
      rw [List.all_append, List.all_cons, hvisible, hsep, hitem]
      rfl
    · refine Or.inr ⟨fun hboth => hvisible (htext.mp hboth.2), ?_⟩
      have hlong : ¬(value ++ 44 :: item).all isVisible := by
        rw [List.all_append, Bool.and_eq_true]
        intro hboth
        exact hvisible hboth.1
      rw [HeaderMap.getStr, HeaderMap.getStr, hget, hvalue, Option.filter_some, Option.filter_some,
        if_neg hlong, if_neg hvisible]
  · exact Or.inr ⟨fun hboth => hnot hboth.1, by rw [HeaderMap.getStr, HeaderMap.getStr, hget]⟩

theorem realIp_forward (how : Forwarding) (received : HeaderMap) :
    realIp (forward how item received) = realIp received := by
  rw [realIp, realIp, HeaderMap.getStr, HeaderMap.getStr,
    get_forward_of_ne (by decide : xRealIp ≠ xForwardedFor)]

/-- **Whose address is it?**  Behind a trusted proxy the address it added is resolved exactly when
it stands on the first line of the chain and that line is text, or when the received headers name
the same address by themselves. -/
theorem resolveClientIp_forward_iff {peer : IpAddr} (hpeer : isTrusted (normalizeIp peer) trusted)
    (h : Forwards trusted item c) (how : Forwarding) (received : HeaderMap) :
    resolveClientIp peer (forward how item received) trusted = normalizeIp c ↔
      (FirstIsLast how received ∧ FirstIsText received) ∨
        namedClient trusted received = some (normalizeIp c) := by
  have hother : normalizeIp peer ≠ normalizeIp c := by
    intro heq
    rw [heq, h.untrusted] at hpeer
    cases hpeer
  rw [resolveClientIp_eq hpeer]
  rcases getStr_forward h.text how received with ⟨hhonest, line, hline, hends⟩ | ⟨hnot, hline⟩
  · have hsplit : ∃ before, splitCommas line = before ++ [item] := by
      rcases hends with rfl | ⟨value, rfl⟩
      · exact ⟨[], splitCommas_single h.single⟩
      · exact ⟨splitCommas value, splitCommas_append h.single value⟩
    obtain ⟨before, hbefore⟩ := hsplit
    have hclient : namedClient trusted (forward how item received) = some (normalizeIp c) := by
      rw [namedClient, hline, Option.bind_some, forwardedClient_of_last h hbefore, Option.some_or]
    rw [hclient]
    exact ⟨fun _ => Or.inl hhonest, fun _ => rfl⟩
  · have hclient : namedClient trusted (forward how item received) =
        namedClient trusted received := by
      rw [namedClient, namedClient, hline, realIp_forward]
    rw [hclient]
    constructor
    · intro hresolved
      cases hnamed : namedClient trusted received with
      | none =>
          rw [hnamed] at hresolved
          exact absurd hresolved hother
      | some client =>
          rw [hnamed] at hresolved
          exact Or.inr (congrArg some hresolved)
    · intro hright
      rw [hright.resolve_left hnot]
      rfl

/-- The condition met: an empty request through `10.0.0.1`, whose proxy adds the client. -/
theorem resolveClientIp_forward_direct :
    resolveClientIp (.v4 0x0A000001)
      (forward .furtherLine (ascii "203.0.113.9") [(xRealIp, ascii "198.51.100.7")])
      [v4Literal 10 0 0 0 8] = normalizeIp (.v4 0xCB007109) :=
  (resolveClientIp_forward_iff (by decide) ⟨by decide, by decide, by decide +kernel, by decide⟩
    .furtherLine _).mpr (Or.inl ⟨Nat.zero_le 0, by
      have hnone : HeaderMap.get [(xRealIp, ascii "198.51.100.7")] xForwardedFor = none := by decide
      rw [FirstIsText, hnone]
      nofun⟩)

/-- **A forged address.**  A request with its own chain line goes through a proxy that adds a
further line: the sender's line decides. -/
theorem resolveClientIp_forged :
    isTrusted (normalizeIp (.v4 0x0A000001)) [v4Literal 10 0 0 0 8] ∧
      Forwards [v4Literal 10 0 0 0 8] (ascii "203.0.113.9") (.v4 0xCB007109) ∧
      resolveClientIp (.v4 0x0A000001)
        (forward .furtherLine (ascii "203.0.113.9") [(xForwardedFor, ascii "198.51.100.7")])
        [v4Literal 10 0 0 0 8] = .v4 0xC6336407 ∧
      normalizeIp (.v4 0xCB007109) ≠ .v4 0xC6336407 :=
  ⟨by decide, ⟨by decide, by decide, by decide +kernel, by decide⟩, by decide +kernel, by decide⟩

end Forwarded

end SimplyIpSync.Config
