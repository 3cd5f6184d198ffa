/-
Reading back the written form of an endpoint.

The written form is the name of the transport, `://`, the shown host, a colon and the port;
`parts?_written` takes it apart again for any host text.  What decides is the host: a name
or an IPv4 address is shown as it stands and read as it stands, and an IPv6 address is shown
in brackets, inside which a reader takes hexadecimal digits and colons only.

* `forall_mem_text` — the characters of the written form of an accepted host;
* `parse_text` — the written form of an accepted host reads back to the endpoint, unless the
  host is an IPv6 address that ends in a dotted quad: then nothing is read at all;
* `nodeId?_of_forNode` — the node is read back from the port;
* `parse_text_forNode` — both together.
-/
import PeerOverlay.Proofs.Configurator
import PeerOverlay.Proofs.Host

namespace PeerOverlay

open PeerOverlay.Text

namespace Text

theorem length_numeral_le_five {n : Nat} (h : n < UInt16.size) : (numeral n).length ≤ 5 :=
  (Nat.length_toDigits_le_iff (by decide) (by decide)).mpr (Nat.lt_trans h (by decide))

/-- A text that neither begins nor ends with a blank keeps all its characters. -/
theorem trim_eq_self {cs : List Char} (hhead : ∀ c ∈ cs.head?, isBlank c = false)
    (hlast : ∀ c ∈ cs.getLast?, isBlank c = false) : trim cs = cs := by
  have hkeep : ∀ {l : List Char}, (∀ c ∈ l.head?, isBlank c = false) →
      l.dropWhile isBlank = l := by
    intro l hl
    cases l with
    | nil => rfl
    | cons c l => rw [List.dropWhile_cons_of_neg (by simp [hl c rfl])]
  rw [trim, hkeep hhead, hkeep (by rwa [List.head?_reverse]), List.reverse_reverse]

end Text

namespace Endpoint

variable {transport : Transport} {host : String} {shown digits : List Char}

/-! ### Ports -/

theorem colon_not_mem_numeral (n : Nat) : ':' ∉ numeral n := by
  intro h
  exact absurd (isDigit_of_mem_numeral h) (by decide)

theorem all_isDecimalDigit_numeral (n : Nat) : (numeral n).all isDecimalDigit = true :=
  List.all_eq_true.mpr fun _ hc =>
    isDecimalDigit_of_isDigit (isDigit_of_mem_numeral hc)

theorem port?_numeral (port : UInt16) : port? (numeral port.toNat) = some port := by
  have hlt : port.toNat < UInt16.size := port.toNat_lt
  simp [port?, number?_numeral, Option.filter, hlt]

/-! ### Taking a written form apart -/

theorem splitAtLastColon?_append (front : List Char) {back : List Char} (h : ':' ∉ back) :
    splitAtLastColon? (front ++ ':' :: back) = some (front, back) := by
  -- Read from the end, the colon is the first character that is not of `back`.
  have hback : ∀ c ∈ back.reverse, (decide (c ≠ ':')) = true := by
    intro c hc
    exact decide_eq_true fun heq => h (heq ▸ List.mem_reverse.mp hc)
  have hreverse : (front ++ ':' :: back).reverse = back.reverse ++ ':' :: front.reverse := by
    simp
  simp only [splitAtLastColon?, hreverse, List.dropWhile_append_of_pos hback,
    List.takeWhile_append_of_pos hback]
  simp

theorem parts?_written {name : List Char} (hne : name ≠ [])
    (hname : ∀ c ∈ name, c.isLower = true) (hlength : 1 ≤ digits.length ∧ digits.length ≤ 5)
    (hdigits : digits.all isDecimalDigit = true) (hcolon : ':' ∉ digits) :
    parts? (name ++ ':' :: '/' :: '/' :: (shown ++ ':' :: digits)) =
      (host? shown).map fun host => ⟨name, host, digits⟩ := by
  have htake : (name ++ ':' :: '/' :: '/' :: (shown ++ ':' :: digits)).takeWhile Char.isLower =
      name := by
    rw [List.takeWhile_append_of_pos hname, List.takeWhile_cons_of_neg (by decide),
      List.append_nil]
  have hdrop : (name ++ ':' :: '/' :: '/' :: (shown ++ ':' :: digits)).dropWhile Char.isLower =
      ':' :: '/' :: '/' :: (shown ++ ':' :: digits) := by
    rw [List.dropWhile_append_of_pos hname, List.dropWhile_cons_of_neg (by decide)]
  simp only [parts?, htake, hdrop, splitAtLastColon?_append _ hcolon]
  cases host? shown with
  | none => rfl
  | some host => simp [hne, hlength, hdigits]

theorem transport_parse_name (transport : Transport) :
    Transport.parse transport.name = .ok transport := by
  cases transport <;> rfl

theorem name_ne_nil (transport : Transport) : transport.name.toList ≠ [] := by
  cases transport <;> decide

theorem isLower_of_mem_name (transport : Transport) :
    ∀ c ∈ transport.name.toList, c.isLower = true :=
  List.all_eq_true.mp (by cases transport <;> decide)

/-! ### Hosts -/

theorem host?_brackets {cs : List Char} (hne : cs ≠ []) :
    host? ('[' :: (cs ++ [']'])) = if cs.all isBracketedChar then some cs else none := by
  simp [host?, hne]

theorem host?_of_isNameChar {cs : List Char} (hne : cs ≠ [])
    (h : ∀ c ∈ cs, isNameChar c = true) : host? cs = some cs := by
  have hall : cs.all isNameChar = true := List.all_eq_true.mpr h
  rw [host?.eq_def]
  split
  next inner => exact absurd (h '[' List.mem_cons_self) (by decide)
  next => rw [if_pos ⟨hne, hall⟩]

/-- Inside brackets a dotted quad cannot be read. -/
theorem all_isBracketedChar_iff {cs : List Char} (h : Host.isIpv6 cs = true) :
    cs.all isBracketedChar = true ↔ '.' ∉ cs := by
  rw [List.all_eq_true]
  constructor
  · intro hall hdot
    exact absurd (hall '.' hdot) (by decide)
  · intro hdot c hc
    rcases Host.forall_mem_of_isIpv6 h c hc with hhex | hcolon | hpoint
    · simp [isBracketedChar, hhex]
    · simp [isBracketedChar, hcolon]
    · exact absurd (hpoint ▸ hc) hdot

/-- An IPv6 address that ends in a dotted quad. -/
def HoldsQuad (host : String) : Prop :=
  Host.isIpv6 host.toList = true ∧ '.' ∈ host.toList

instance (host : String) : Decidable (HoldsQuad host) :=
  inferInstanceAs (Decidable (_ ∧ _))

/-- An IPv6 address stands in brackets. -/
theorem toList_shownHost_of_isIpv6 (h6 : Host.isIpv6 host.toList = true) :
    (shownHost host).toList = '[' :: (host.toList ++ [']']) := by
  simp [shownHost, h6]

theorem shownHost_of_not_isIpv6 (h6 : Host.isIpv6 host.toList = false) :
    shownHost host = host := by
  simp [shownHost, h6]

theorem host?_shownHost (h : Host.isValid host = true) :
    host? (shownHost host).toList = if HoldsQuad host then none else some host.toList := by
  have hne : host.toList ≠ [] := Host.toList_ne_nil_of_isValid h
  rcases h6 : Host.isIpv6 host.toList with _ | _
  · have hname : ∀ c ∈ host.toList, isNameChar c = true := by
      intro c hc
      rcases Host.forall_mem_of_not_isIpv6 h h6 c hc with hlabel | hpoint
      · simp only [Host.isLabelChar, Bool.or_eq_true] at hlabel
        rcases hlabel with halnum | hhyphen
        · simp [isNameChar, halnum]
        · simp [isNameChar, hhyphen]
      · simp [isNameChar, hpoint]
    rw [shownHost_of_not_isIpv6 h6, host?_of_isNameChar hne hname]
    simp [HoldsQuad, h6]
  · rw [toList_shownHost_of_isIpv6 h6, host?_brackets hne]
    by_cases hdot : '.' ∈ host.toList
    · rw [if_neg (by rw [all_isBracketedChar_iff h6]; exact fun hn => hn hdot),
        if_pos ⟨h6, hdot⟩]
    · rw [if_pos ((all_isBracketedChar_iff h6).mpr hdot), if_neg fun hq => hdot hq.2]

/-! ### Written forms -/

variable {e : Endpoint}

theorem toList_text (e : Endpoint) :
    e.text.toList = e.transport.name.toList ++
      ':' :: '/' :: '/' :: ((shownHost e.host).toList ++ ':' :: numeral e.port.toNat) := by
  simp [text]

/-- A character of the written form of an accepted host. -/
def IsTextChar (c : Char) : Prop :=
  isAsciiAlnum c = true ∨ c ∈ ['.', '-', ':', '/', '[', ']']

instance (c : Char) : Decidable (IsTextChar c) :=
  inferInstanceAs (Decidable (_ ∨ _))

theorem isTextChar_of_isHostChar {c : Char} (h : Host.IsHostChar c) : IsTextChar c := by
  rcases h with h | rfl | rfl
  · rw [Host.isLabelChar, Bool.or_eq_true] at h
    rcases h with halnum | hhyphen
    · exact .inl halnum
    · obtain rfl := of_decide_eq_true hhyphen
      decide
  · decide
  · decide

theorem forall_mem_shownHost {host : String} (h : Host.isValid host = true) :
    ∀ c ∈ (shownHost host).toList, IsTextChar c := by
  intro c hc
  have hhost : c ∈ host.toList → IsTextChar c :=
    fun hmem => isTextChar_of_isHostChar (Host.forall_mem_of_isValid h c hmem)
  rcases h6 : Host.isIpv6 host.toList with _ | _
  · rw [shownHost_of_not_isIpv6 h6] at hc
    exact hhost hc
  · rw [toList_shownHost_of_isIpv6 h6, List.mem_cons, List.mem_append, List.mem_singleton] at hc
    rcases hc with rfl | hmem | rfl
    · decide
    · exact hhost hmem
    · decide

/-- A written form consists of letters, digits and the marks between its parts. -/
theorem forall_mem_text (h : Host.isValid e.host = true) : ∀ c ∈ e.text.toList, IsTextChar c := by
  intro c hc
  rw [toList_text] at hc
  simp only [List.mem_append, List.mem_cons] at hc
  rcases hc with hname | rfl | rfl | rfl | hhost | rfl | hdigit
  · left
    show (c.isUpper || c.isLower || c.isDigit) = true
    rw [isLower_of_mem_name _ c hname, Bool.or_true, Bool.true_or]
  · decide
  · decide
  · decide
  · exact forall_mem_shownHost h c hhost
  · decide
  · left
    show (c.isUpper || c.isLower || c.isDigit) = true
    rw [isDigit_of_mem_numeral hdigit, Bool.or_true]

/-- A written form begins with a letter and ends with a digit. -/
theorem trim_text (e : Endpoint) : trim e.text.toList = e.text.toList := by
  apply trim_eq_self
  · intro c hc
    have hhead : e.text.toList.head? = e.transport.name.toList.head? := by
      rw [toList_text]
      cases e.transport <;> rfl
    rw [hhead] at hc
    have hname : ∀ t : Transport, t.name.toList.head?.all (!isBlank ·) = true := by
      intro t
      cases t <;> decide
    simpa [Option.mem_def.mp hc] using hname e.transport
  · intro c hc
    have hlast : e.text.toList.getLast? = (numeral e.port.toNat).getLast? := by
      have hsplit : e.text.toList = (e.transport.name.toList ++
          ':' :: '/' :: '/' :: ((shownHost e.host).toList ++ [':'])) ++ numeral e.port.toNat := by
        simp [toList_text]
      rw [hsplit, List.getLast?_append, Option.or_of_isSome]
      exact List.getLast?_isSome.mpr (numeral_ne_nil _)
    rw [hlast] at hc
    have hdigit := isDigit_of_mem_numeral (List.mem_of_getLast? hc)
    exact isBlank_of_isDigit hdigit

theorem parts?_text (e : Endpoint) :
    parts? e.text.toList = (host? (shownHost e.host).toList).map fun host =>
      ⟨e.transport.name.toList, host, numeral e.port.toNat⟩ := by
  have hlength : 1 ≤ (numeral e.port.toNat).length ∧ (numeral e.port.toNat).length ≤ 5 :=
    ⟨List.length_pos_iff.mpr (numeral_ne_nil _), length_numeral_le_five e.port.toNat_lt⟩
  rw [toList_text, parts?_written (name_ne_nil _) (isLower_of_mem_name _) hlength
    (all_isDecimalDigit_numeral _) (colon_not_mem_numeral _)]

/-- An endpoint reads back if its shown host does. -/
theorem parse_text_of_host?_eq_some (h : host? (shownHost e.host).toList = some e.host.toList) :
    parse e.text = .ok e := by
  rw [parse, trim_text, parts?_text, h]
  simp only [Option.map_some, String.ofList_toList, transport_parse_name, port?_numeral]

theorem parse_text_of_host?_eq_none (h : host? (shownHost e.host).toList = none) :
    parse e.text = .error (.malformed e.text) := by
  rw [parse, trim_text, parts?_text, h]
  rfl

theorem parse_text (h : Host.isValid e.host = true) :
    parse e.text = if HoldsQuad e.host then .error (.malformed e.text) else .ok e := by
  have hhost := host?_shownHost h
  split
  next hquad => exact parse_text_of_host?_eq_none (hhost.trans (if_pos hquad))
  next hquad => exact parse_text_of_host?_eq_some (hhost.trans (if_neg hquad))

/-! ### Nodes -/

variable {bases : BasePorts} {node : NodeId}

theorem toNat_port_of_forNode (h : forNode transport host bases node = .ok e) :
    e.port.toNat = bases.tcp.toNat + node := by
  obtain ⟨hle, rfl⟩ := endpoint_forNode_eq_ok_iff.mp h
  have hlt : bases.tcp.toNat + node < UInt16.size := Nat.lt_of_le_pred (by decide) hle
  exact UInt16.toNat_ofNat_of_lt' hlt

theorem nodeId?_of_forNode (h : forNode transport host bases node = .ok e) :
    e.nodeId? bases = some node := by
  have hport := toNat_port_of_forNode h
  have hle : bases.tcp ≤ e.port := by
    rw [UInt16.le_iff_toNat_le, hport]
    exact Nat.le_add_right _ _
  rw [nodeId?, if_pos hle, hport, Nat.add_sub_cancel_left]

theorem host_of_forNode (h : forNode transport host bases node = .ok e) : e.host = host := by
  obtain ⟨-, rfl⟩ := endpoint_forNode_eq_ok_iff.mp h
  rfl

/-- **A written receiver leads back to its node, unless its host holds a dotted quad.**  The
node is always read back from the port.  The written form reads back to the endpoint for
every accepted host but an IPv6 address that ends in a dotted quad, whose written form is
refused. -/
theorem parse_text_forNode (h : Host.isValid host = true)
    (hnode : forNode transport host bases node = .ok e) :
    e.nodeId? bases = some node ∧ e.host = host ∧
      parse e.text = if HoldsQuad host then .error (.malformed e.text) else .ok e := by
  have hhost := host_of_forNode hnode
  refine ⟨nodeId?_of_forNode hnode, hhost, ?_⟩
  rw [← hhost]
  exact parse_text (hhost ▸ h)

/-- A long spelling of an IPv6 address reads back. -/
theorem parse_text_forNode_long :
    (Host.isValid "fd00:0:0:0:0:0:0:5" = true ∧
      forNode .udp "fd00:0:0:0:0:0:0:5" {} 31535 =
        .ok ⟨.udp, "fd00:0:0:0:0:0:0:5", 65535⟩) ∧
    Endpoint.nodeId? ⟨.udp, "fd00:0:0:0:0:0:0:5", 65535⟩ {} = some 31535 ∧
    parse "udp://[fd00:0:0:0:0:0:0:5]:65535" = .ok ⟨.udp, "fd00:0:0:0:0:0:0:5", 65535⟩ := by
  have hvalid : Host.isValid "fd00:0:0:0:0:0:0:5" = true := by decide +kernel
  have hnode : forNode .udp "fd00:0:0:0:0:0:0:5" {} 31535 =
      .ok ⟨.udp, "fd00:0:0:0:0:0:0:5", 65535⟩ := by decide +kernel
  obtain ⟨hid, -, hparse⟩ := parse_text_forNode hvalid hnode
  rw [if_neg (by decide +kernel)] at hparse
  exact ⟨⟨hvalid, hnode⟩, hid, hparse⟩

/-- The round trip fails: an IPv4 address mapped into IPv6 is an accepted host, and the
written form of its receiver is refused. -/
theorem not_forall_parse_text_forNode :
    ¬∀ (transport : Transport) (host : String) (bases : BasePorts) (node : NodeId) (e : Endpoint),
      Host.isValid host = true → forNode transport host bases node = .ok e →
        parse e.text = .ok e := by
  intro h
  have hparse := h .tcp "::ffff:1.2.3.4" {} 1 ⟨.tcp, "::ffff:1.2.3.4", 34001⟩
    (by decide +kernel) (by decide +kernel)
  exact absurd hparse (by decide +kernel)

end Endpoint

end PeerOverlay
