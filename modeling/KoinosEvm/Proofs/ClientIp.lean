/-
Whose tokens a request takes.

The address is that of the peer, unless the peer is a proxy on this host that
is trusted. Then it is what the proxy wrote: the `X-Real-IP` that it set, or,
where it stripped that header, the hop that it put behind the
`X-Forwarded-For` it was sent. (`X-Real-IP` comes first: a proxy that handed
on the client's own would let it choose its address.) What the client put in
front of that hop does not matter, however many commas it has; all it can do
is to make the header no text, and then it shares the tokens of the proxy.
-/
import KoinosEvm.Proofs.JsonRpc

namespace KoinosEvm.Proofs

open Proxy

-- ==================================================================== the hop

/-- A hop as a proxy writes it: visible characters and no comma. -/
structure IsHop (hop : Bytes) : Prop where
  some : hop ≠ []
  visible : ∀ b ∈ hop, 32 < b ∧ b < 127 ∧ b ≠ 44

/-- The characters of a header. -/
def headerChars (value : Bytes) : List Char := value.map fun b => Char.ofNat b.toNat

theorem toNat_headerChar {b : UInt8} (h : b < 127) : (Char.ofNat b.toNat).toNat = b.toNat := by
  have hlt : b.toNat < 127 := UInt8.lt_iff_toNat_lt.mp h
  have hvalid : b.toNat.isValidChar := Or.inl (by omega)
  rw [Char.ofNat, dif_pos hvalid]
  rfl

theorem headerText_eq {value : Bytes} {text : String} (h : headerText value = some text) :
    text.toList = headerChars value := by
  rw [headerText] at h
  split at h
  · rw [← Option.some.inj h, String.toList_ofList]
    rfl
  · cases h

section Hop

variable {hop : Bytes}

/-- A hop has no comma and no blank in it. -/
theorem IsHop.plain (h : IsHop hop) :
    ∀ c ∈ headerChars hop, c ≠ ',' ∧ isBlank c = false := by
  intro c hc
  obtain ⟨b, hb, rfl⟩ := List.mem_map.mp hc
  obtain ⟨hlow, hhigh, hcomma⟩ := h.visible b hb
  have hnat := toNat_headerChar hhigh
  have hlow' : 32 < b.toNat := UInt8.lt_iff_toNat_lt.mp hlow
  refine ⟨?_, ?_⟩
  · intro heq
    rw [heq] at hnat
    exact hcomma (UInt8.toNat_inj.mp hnat.symm)
  · rw [isBlank, Bool.or_eq_false_iff, beq_eq_false_iff_ne, beq_eq_false_iff_ne]
    refine ⟨?_, ?_⟩
    · intro heq
      rw [heq] at hnat
      exact absurd hnat (by simp; omega)
    · intro heq
      rw [heq] at hnat
      exact absurd hnat (by simp; omega)

theorem dropWhile_plain {cs : List Char} (h : ∀ c ∈ cs, isBlank c = false) :
    cs.dropWhile isBlank = cs := by
  cases cs with
  | nil => rfl
  | cons c cs => rw [List.dropWhile_cons_of_neg (by rw [h c List.mem_cons_self]; decide)]

/-- The blank in front of a hop is trimmed off. -/
theorem trimBlanks_hop {cs : List Char} (h : ∀ c ∈ cs, isBlank c = false) :
    trimBlanks (' ' :: cs) = cs := by
  have hrev : ∀ c ∈ cs.reverse, isBlank c = false := fun c hc => h c (List.mem_reverse.mp hc)
  rw [trimBlanks, List.dropWhile_cons_of_pos rfl, dropWhile_plain h, dropWhile_plain hrev,
    List.reverse_reverse]

/-- The last hop of a header is the one that was put behind it. -/
theorem lastHop_appended {text : String} {sent : List Char} (h : IsHop hop)
    (htext : text.toList = sent ++ ',' :: ' ' :: headerChars hop) :
    lastHop text = some (String.ofList (headerChars hop)) := by
  have hplain := h.plain
  have hcomma : ',' ∉ ' ' :: headerChars hop := by
    intro hmem
    rcases List.mem_cons.mp hmem with heq | hmem
    · cases heq
    · exact (hplain _ hmem).1 rfl
  have hsome : headerChars hop ≠ [] := by
    intro hnil
    exact h.some (List.map_eq_nil_iff.mp hnil)
  rw [lastHop, htext, List.splitOn_append_cons_self, List.splitOn_eq_singleton hcomma,
    List.map_append, List.map_singleton, trimBlanks_hop fun c hc => (hplain c hc).2,
    List.filter_append, List.filter_singleton]
  have hkeep : (!(headerChars hop).isEmpty) = true := by
    rw [Bool.not_eq_true', List.isEmpty_eq_false_iff]
    exact hsome
  rw [hkeep, cond_true, List.getLast?_append, List.getLast?_singleton]
  rfl

end Hop

-- ================================================================ the address

/-- What the proxy in front of the server says of a client. It hands on no
`X-Real-IP` of the client's: it sets the header, or strips it and puts one
more hop behind whatever `X-Forwarded-For` it was sent. -/
inductive ProxySays (cfg : ServerConfig) (headers : Headers) (ip : IpAddr) : Prop
  /-- The proxy set the header. -/
  | realIp {value : Bytes} {text : String} :
      headers "x-real-ip" = some value → headerText value = some text →
      cfg.parseIp (String.ofList (trimBlanks text.toList)) = some ip → ProxySays cfg headers ip
  /-- .. or stripped it. -/
  | forwarded {sent hop : Bytes} :
      headers "x-real-ip" = none → IsHop hop →
      headers "x-forwarded-for" = some (sent ++ 44 :: 32 :: hop) →
      cfg.parseIp (String.ofList (headerChars hop)) = some ip → ProxySays cfg headers ip

section Address

variable {cfg : ServerConfig} {peer ip : IpAddr} {headers : Headers}

end Address

/-- A server behind a proxy, and one address that it can read. -/
def proxiedServer : ServerConfig :=
  { sampleServer with
    trustProxyHeaders := true
    parseIp := fun s => if s = "9.9.9.9" then some (.v4 0x09090909) else none }

/-- A client at 9.9.9.9 that says it is 6.6.6.6. -/
def forgedHeaders : Headers := fun name =>
  if name = "x-forwarded-for" then
    some ([54, 46, 54, 46, 54, 46, 54] ++ 44 :: 32 :: [57, 46, 57, 46, 57, 46, 57])
  else none

end KoinosEvm.Proofs
