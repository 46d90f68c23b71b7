import GenieClaw.Library.Url

/-!
# The checked host and the host that is reached

The validators end the authority of an address at the first slash. A web client also ends
it at a backslash, a `?` or a `#`, so an accepted text can name another host where one of
these stands before the last `@`.

* `readHost_of_accepted`: where nothing cuts the authority short, the host that is reached is the
  one that was checked.
-/

namespace GenieClaw.Egress

open Library Library.Text Library.Web List

/-!
## The loopback checks of configured addresses

`validate_inference_route`, `extract_host` and `is_loopback_host` of
`genie-core/src/security/sandbox.rs`, `remote_url` of `genie-core/src/llm/provider.rs`, and
the copies `is_remote_url` and `is_loopback_host` of `genie-common/src/config.rs`. The two
functions `is_loopback_host` have one text.

* `isRemoteUrl_eq`: the two copies give the same verdict on every text.
-/

/-- The text after `http://` or `https://`, or the whole text without them. -/
def withoutWebScheme (url : String) : String :=
  ((stripPrefix "http://" url).or (stripPrefix "https://" url)).getD url

/-- Everything up to the first slash. -/
def authorityText (url : String) : List Char :=
  (withoutWebScheme url).toList.takeWhile fun c => c != '/'

/-- The host of an authority without user info: up to the closing bracket, or up to the
first colon. -/
def hostOfPort : List Char → List Char
  | '[' :: rest =>
    if ']' ∈ rest then '[' :: rest.takeWhile (fun c => c != ']') ++ [']'] else '[' :: rest
  | hostPort => hostPort.takeWhile fun c => c != ':'

def withoutBrackets (host : List Char) : List Char :=
  match host with
  | '[' :: inner => if inner.getLast? = some ']' then inner.dropLast else host
  | _ => host

def isLoopbackHost (host : String) : Bool :=
  let host := trim host
  if host = "" then false
  else if eqIgnoreAsciiCase host "localhost" then true
  else ((IpAddr.parseIp (withoutBrackets host.toList)).map IpAddr.isLoopback).getD false

/-! ## genie-core -/

def extractHost (url : String) : String :=
  let hostPort := afterLast '@' (authorityText (trim url))
  toAsciiLowercase (String.ofList (hostOfPort hostPort))

def validateInferenceRoute (url : String) : Except String Unit :=
  if isLoopbackHost (extractHost url) then .ok ()
  else
    .error ("inference route rejected: " ++ url ++ " is not localhost. " ++
      "GeniePod only allows LLM calls to local endpoints.")

def remoteUrl (url : String) : Bool :=
  let url := trim url
  if url = "" then false
  else
    match validateInferenceRoute url with
    | .ok _ => false
    | .error _ => true

/-! ## genie-common -/

/-- `rsplit_once`. -/
def rsplitOnce (c : Char) (cs : List Char) : Option (List Char × List Char) :=
  if c ∈ cs then some ((cs.rdropWhile fun x => x != c).dropLast, afterLast c cs) else none

def isRemoteUrl (url : String) : Bool :=
  let url := trim url
  if url = "" then false
  else
    let authority := authorityText url
    let authority := ((rsplitOnce '@' authority).map Prod.snd).getD authority
    !isLoopbackHost (String.ofList (hostOfPort authority))

def isLocalUrl (url : String) : Bool := !isRemoteUrl url

/-! ## One verdict -/

theorem withoutBrackets_toLower (cs : List Char) :
    withoutBrackets (cs.map Char.toLower) = (withoutBrackets cs).map Char.toLower := by
  have hbracket : ∀ c : Char, c.toLower = '[' ↔ c = '[' :=
    fun c => IpAddr.toLower_eq_iff (by decide) (by decide)
  have hclose : ∀ c : Char, c.toLower = ']' ↔ c = ']' :=
    fun c => IpAddr.toLower_eq_iff (by decide) (by decide)
  cases cs with
  | nil => rfl
  | cons c inner =>
    by_cases hc : c = '['
    · subst hc
      have hlast : (inner.map Char.toLower).getLast? = some ']' ↔ inner.getLast? = some ']' := by
        rw [getLast?_map, Option.map_eq_some_iff]
        simp [hclose]
      show (if (inner.map Char.toLower).getLast? = some ']' then _ else _) = _
      simp only [withoutBrackets, hlast]
      split_ifs
      · exact List.map_dropLast.symm
      · rfl
    · have hplain : ∀ d : Char, d ≠ '[' → ∀ rest, withoutBrackets (d :: rest) = d :: rest := by
        intro d hd rest
        unfold withoutBrackets
        split
        · rename_i heq
          cases heq
          exact absurd rfl hd
        · rfl
      rw [map_cons, hplain _ (mt (hbracket c).mp hc), hplain c hc, map_cons]

theorem isLoopbackHost_toAsciiLowercase (host : String) :
    isLoopbackHost (toAsciiLowercase host) = isLoopbackHost host := by
  have hempty : toAsciiLowercase (trim host) = "" ↔ trim host = "" := by
    rw [← String.toList_inj, ← String.toList_inj]
    simp [toAsciiLowercase]
  have hname : eqIgnoreAsciiCase (toAsciiLowercase (trim host)) "localhost" =
      eqIgnoreAsciiCase (trim host) "localhost" := by
    rw [eqIgnoreAsciiCase, eqIgnoreAsciiCase, toAsciiLowercase_idem]
  have hip : IpAddr.parseIp (withoutBrackets (toAsciiLowercase (trim host)).toList) =
      IpAddr.parseIp (withoutBrackets (trim host).toList) := by
    rw [toAsciiLowercase, String.toList_ofList, withoutBrackets_toLower, IpAddr.parseIp_toLower]
  unfold isLoopbackHost
  simp only [trim_toAsciiLowercase, hempty, hname, hip]

theorem getD_rsplitOnce (c : Char) (cs : List Char) :
    ((rsplitOnce c cs).map Prod.snd).getD cs = afterLast c cs := by
  unfold rsplitOnce
  split_ifs with h
  · rfl
  · exact (afterLast_of_not_mem h).symm

theorem isRemoteUrl_eq (url : String) : isRemoteUrl url = remoteUrl url := by
  unfold isRemoteUrl remoteUrl validateInferenceRoute extractHost
  simp only [getD_rsplitOnce, trim_trim, isLoopbackHost_toAsciiLowercase]
  cases isLoopbackHost (String.ofList (hostOfPort (afterLast '@' (authorityText (trim url))))) <;>
    rfl

theorem remoteUrl_eq_false_iff {url : String} (hne : trim url ≠ "") :
    remoteUrl url = false ↔
      isLoopbackHost (String.ofList (hostOfPort (afterLast '@' (authorityText (trim url))))) =
        true := by
  unfold remoteUrl validateInferenceRoute extractHost
  rw [if_neg hne, trim_trim, isLoopbackHost_toAsciiLowercase]
  cases isLoopbackHost (String.ofList (hostOfPort (afterLast '@' (authorityText (trim url))))) <;>
    simp

/-! ## Loopback texts -/

def LoopbackText (lit : List Char) : Prop :=
  lit.map Char.toLower = "localhost".toList ∨
    ∃ ip, IpAddr.parseIp (withoutBrackets lit) = some ip ∧ ip.isLoopback = true

theorem isLoopbackHost_iff (host : String) :
    isLoopbackHost host = true ↔ LoopbackText (trimChars host.toList) := by
  have hname : eqIgnoreAsciiCase (trim host) "localhost" = true ↔
      (trimChars host.toList).map Char.toLower = "localhost".toList := by
    rw [eqIgnoreAsciiCase, beq_iff_eq, ← String.toList_inj]
    simp only [toAsciiLowercase, trim, String.toList_ofList]
    rfl
  unfold isLoopbackHost LoopbackText
  dsimp only
  by_cases hempty : trim host = ""
  · have hnil : trimChars host.toList = [] := by
      rw [← String.toList_inj] at hempty
      simpa [trim] using hempty
    rw [if_pos hempty, hnil]
    simp only [Bool.false_eq_true, false_iff]
    rintro (h | ⟨ip, hip, -⟩)
    · cases h
    · rw [show IpAddr.parseIp (withoutBrackets []) = none by decide] at hip
      cases hip
  · rw [if_neg hempty]
    by_cases hlocal : eqIgnoreAsciiCase (trim host) "localhost" = true
    · rw [if_pos hlocal]
      exact iff_of_true rfl (.inl (hname.mp hlocal))
    · rw [if_neg hlocal]
      simp only [mt hname.mpr hlocal, false_or, trim, String.toList_ofList]
      cases IpAddr.parseIp (withoutBrackets (trimChars host.toList)) <;> simp

/-- The characters of a loopback text. -/
def NameChar (c : Char) : Prop := isAsciiAlphanumeric c = true ∨ c ∈ ['.', ':', '[', ']']

variable {c : Char}

theorem isAsciiAlphanumeric_iff : isAsciiAlphanumeric c = true ↔
    (97 ≤ c.toNat ∧ c.toNat ≤ 122) ∨ (65 ≤ c.toNat ∧ c.toNat ≤ 90) ∨
      (48 ≤ c.toNat ∧ c.toNat ≤ 57) := by
  simp [isAsciiAlphanumeric, isAsciiLowercase, IpAddr.char_le_iff, or_assoc]

theorem NameChar.bounds (h : NameChar c) :
    0x20 < c.toNat ∧ c.toNat < 128 ∧ c ≠ '@' ∧ endsAuthority c = false := by
  rcases h with h | h
  · have hrange := isAsciiAlphanumeric_iff.mp h
    have hends : endsAuthority c = false := by
      rw [← Bool.not_eq_true]
      intro hends
      simp only [endsAuthority, isSlash, Bool.or_eq_true, beq_iff_eq] at hends
      rcases hends with ((rfl | rfl) | rfl) | rfl <;> revert hrange <;> decide
    refine ⟨by omega, by omega, ?_, hends⟩
    rintro rfl
    revert hrange
    decide
  · simp only [List.mem_cons, List.not_mem_nil, or_false] at h
    rcases h with rfl | rfl | rfl | rfl <;> decide

instance (c : Char) : Decidable (NameChar c) := inferInstanceAs (Decidable (_ ∨ _))

theorem NameChar.of_toLower (h : NameChar c.toLower) : NameChar c := by
  by_cases hupper : 65 ≤ c.toNat ∧ c.toNat ≤ 90
  · exact .inl (isAsciiAlphanumeric_iff.mpr (.inr (.inl hupper)))
  · rwa [toLower_eq_self hupper] at h

theorem nameChar_of_ipChar (h : IpAddr.IpChar c) : NameChar c := by
  rcases h with h | rfl | rfl
  · refine .inl (isAsciiAlphanumeric_iff.mpr ?_)
    simp only [digitOf, IpAddr.char_le_iff, Char.reduceToNat] at h
    split_ifs at h <;> first | omega | simp at h
  · exact .inr (by decide)
  · exact .inr (by decide)

theorem bracket_not_ipChar : ¬ IpAddr.IpChar '[' ∧ ¬ IpAddr.IpChar ']' := by decide

variable {lit : List Char}

theorem LoopbackText.shape (h : LoopbackText lit) :
    lit.map Char.toLower = "localhost".toList ∨
      (∃ ip, IpAddr.parseIp lit = some ip ∧ ip.isLoopback = true) ∨
      ∃ addr ip, lit = '[' :: addr ++ [']'] ∧ IpAddr.parseIp addr = some ip ∧
        ip.isLoopback = true := by
  refine h.imp id ?_
  rintro ⟨ip, hip, hloop⟩
  unfold withoutBrackets at hip
  split at hip
  · rename_i inner
    split_ifs at hip with hlast
    · refine .inr ⟨inner.dropLast, ip, ?_, hip, hloop⟩
      rw [cons_append, dropLast_append_getLast? _ hlast]
    · exact absurd ((IpAddr.parseIp_chars hip).2 '[' mem_cons_self) bracket_not_ipChar.1
  · exact .inl ⟨ip, hip, hloop⟩

theorem LoopbackText.chars (h : LoopbackText lit) : lit ≠ [] ∧ ∀ c ∈ lit, NameChar c := by
  rcases h.shape with hname | ⟨ip, hip, -⟩ | ⟨addr, ip, rfl, hip, -⟩
  · constructor
    · rintro rfl
      cases hname
    · intro c hc
      have hlower : c.toLower ∈ "localhost".toList := hname ▸ mem_map_of_mem hc
      have hname : ∀ d ∈ "localhost".toList, NameChar d := forall_mem_of_all (by decide)
      exact (hname _ hlower).of_toLower
  · exact ⟨(IpAddr.parseIp_chars hip).1,
      fun c hc => nameChar_of_ipChar ((IpAddr.parseIp_chars hip).2 c hc)⟩
  · refine ⟨by simp, ?_⟩
    intro c hc
    simp only [cons_append, List.mem_cons, List.mem_append, List.not_mem_nil,
      or_false] at hc
    rcases hc with rfl | hc | rfl
    · exact .inr (by decide)
    · exact nameChar_of_ipChar ((IpAddr.parseIp_chars hip).2 c hc)
    · exact .inr (by decide)

theorem LoopbackText.head (h : LoopbackText lit) (hc : c ∈ lit.head?) : c.toLower ≠ 'h' := by
  rcases h.shape with hname | ⟨ip, hip, -⟩ | ⟨addr, ip, rfl, hip, -⟩
  · have hl : (lit.map Char.toLower).head? = some 'l' := by rw [hname]; rfl
    rw [head?_map, Option.mem_def.mp hc, Option.map_some, Option.some.injEq] at hl
    rw [hl]
    decide
  · have hdigit := (IpAddr.parseIp_chars hip).2 c (mem_of_mem_head? hc)
    intro hh
    have hc' : c = 'h' ∨ c = 'H' := by
      rw [← Char.toNat_inj, toNat_toLower] at hh
      rw [← Char.toNat_inj, ← Char.toNat_inj]
      have h1 : Char.toNat 'h' = 104 := by decide
      have h2 : Char.toNat 'H' = 72 := by decide
      split at hh <;> omega
    rcases hc' with rfl | rfl <;> revert hdigit <;> decide
  · cases hc
    decide

/-! ## What is accepted -/

theorem trimChars_split (cs : List Char) : ∃ front back,
    cs = front ++ trimChars cs ++ back ∧ ∀ c ∈ front ++ back, isWhitespace c = true := by
  refine ⟨cs.takeWhile isWhitespace, (cs.dropWhile isWhitespace).rtakeWhile isWhitespace, ?_, ?_⟩
  · rw [trimChars, append_assoc, rdropWhile_append_rtakeWhile,
      takeWhile_append_dropWhile]
  · intro c hc
    rcases List.mem_append.mp hc with hc | hc
    · exact mem_takeWhile_imp hc
    · exact mem_rtakeWhile_imp hc

/-- The host and the port of an accepted authority: an address in brackets at its start, or
a loopback text up to the port, with white space around it. -/
inductive AcceptedPort (hostPort : List Char) : Prop where
  | bracketed (addr rest : List Char) (ip : IpAddr) :
      hostPort = '[' :: addr ++ ']' :: rest → IpAddr.parseIp addr = some ip →
        ip.isLoopback = true → AcceptedPort hostPort
  | plain (front lit back rest : List Char) : hostPort = front ++ lit ++ back ++ rest →
      (∀ c ∈ front ++ back, isWhitespace c = true) → LoopbackText lit →
        ':' ∉ lit → (∀ c ∈ rest.head?, c = ':') → AcceptedPort hostPort

theorem mem_head?_dropWhile {p : Char → Bool} {cs : List Char} (h : c ∈ (cs.dropWhile p).head?) :
    p c = false := by
  induction cs with
  | nil => cases h
  | cons d cs ih =>
    rw [dropWhile_cons] at h
    split_ifs at h with hd
    · exact ih h
    · cases h
      simpa using hd

variable {hostPort : List Char}

theorem acceptedPort_of_plain
    (h : LoopbackText (trimChars (hostPort.takeWhile fun c => c != ':'))) :
    AcceptedPort hostPort := by
  obtain ⟨front, back, hsplit, hwhite⟩ := trimChars_split (hostPort.takeWhile fun c => c != ':')
  refine .plain front _ back (hostPort.dropWhile fun c => c != ':') ?_ hwhite h ?_ ?_
  · rw [← hsplit, takeWhile_append_dropWhile]
  · intro hmem
    have : ':' ∈ hostPort.takeWhile fun c => c != ':' := by
      rw [hsplit]
      simp [hmem]
    simpa using mem_takeWhile_imp this
  · intro c hc
    simpa using mem_head?_dropWhile hc

theorem LoopbackText.of_bracket {lit : List Char} (h : LoopbackText lit) (hmem : '[' ∈ lit) :
    ∃ addr ip, lit = '[' :: addr ++ [']'] ∧ IpAddr.parseIp addr = some ip ∧
      ip.isLoopback = true := by
  rcases h.shape with hname | ⟨ip, hip, -⟩ | hbracket
  · have : ('[').toLower ∈ "localhost".toList := hname ▸ mem_map_of_mem hmem
    exact absurd this (by decide)
  · exact absurd ((IpAddr.parseIp_chars hip).2 '[' hmem) bracket_not_ipChar.1
  · exact hbracket

theorem mem_trimChars (hc : isWhitespace c = false) {cs : List Char} (h : c ∈ cs) :
    c ∈ trimChars cs := by
  obtain ⟨front, back, hsplit, hwhite⟩ := trimChars_split cs
  by_contra hout
  have hside : c ∈ front ++ back := by
    rw [hsplit] at h
    simp only [List.mem_append] at h ⊢
    tauto
  rw [hwhite c hside] at hc
  cases hc

theorem accepted_shape (h : LoopbackText (trimChars (hostOfPort hostPort))) :
    AcceptedPort hostPort := by
  unfold hostOfPort at h
  split at h
  · rename_i rest
    have hopen : ∀ cs, '[' ∈ trimChars ('[' :: cs) :=
      fun cs => mem_trimChars (by decide) mem_cons_self
    split_ifs at h with hclose
    · have htrim : trimChars ('[' :: rest.takeWhile (fun c => c != ']') ++ [']']) =
          '[' :: rest.takeWhile (fun c => c != ']') ++ [']'] := by
        rw [trimChars, dropWhile_eq_self_of_head (by simp; decide), rdropWhile_concat_neg]
        decide
      rw [htrim] at h
      obtain ⟨addr, ip, heq, hip, hloop⟩ := h.of_bracket mem_cons_self
      have haddr : rest.takeWhile (fun c => c != ']') = addr := by simpa using heq
      obtain ⟨before, after, rfl, hbefore⟩ := eq_append_cons_of_mem hclose
      have htake : (before ++ ']' :: after).takeWhile (fun c => c != ']') = before := by
        rw [takeWhile_append_of_pos]
        · simp
        · intro c hc
          exact bne_iff_ne.mpr (ne_of_mem_of_not_mem hc hbefore)
      rw [htake] at haddr
      exact .bracketed before after ip rfl (haddr ▸ hip) hloop
    · obtain ⟨addr, ip, heq, -, -⟩ := h.of_bracket (hopen rest)
      obtain ⟨front, back, hsplit, -⟩ := trimChars_split ('[' :: rest)
      have hmem : ']' ∈ '[' :: rest := by
        rw [hsplit, heq]
        simp
      simp [hclose] at hmem
  · exact acceptedPort_of_plain h

/-! ## The host a web client reads -/

/-- The part of an authority up to the last `@`, the `@` included. -/
def userPart (authority : List Char) : List Char := authority.rdropWhile fun c => c != '@'

/-- A backslash, a `?` or a `#` stands before the last `@` of what the validators take for
the authority. -/
def cutShort (url : String) : Bool := (userPart (authorityText (trim url))).any endsAuthority

theorem userPart_cases (authority : List Char) :
    (userPart authority = [] ∧ authority = afterLast '@' authority) ∨
      ∃ user, userPart authority = user ++ ['@'] ∧
        authority = user ++ '@' :: afterLast '@' authority := by
  have hsplit : userPart authority ++ afterLast '@' authority = authority :=
    rdropWhile_append_rtakeWhile
  by_cases hmem : '@' ∈ authority
  · obtain ⟨user, huser⟩ := afterLast_split hmem
    refine .inr ⟨user, ?_, huser⟩
    have : userPart authority ++ afterLast '@' authority =
        user ++ ['@'] ++ afterLast '@' authority := by
      rw [hsplit, append_assoc]
      exact huser
    exact append_cancel_right this
  · left
    have hself := afterLast_of_not_mem hmem
    refine ⟨?_, hself.symm⟩
    rw [hself] at hsplit
    simpa using hsplit

/-- What the authority of a web client takes from the text behind the host. -/
def readRest (more tail : List Char) : List Char :=
  (cleanBack (more ++ tail)).takeWhile fun c => !endsAuthority c

theorem readRest_eq {more tail : List Char} (htail : ∀ c ∈ tail.head?, c = '/') :
    ∃ read, readRest more tail = read.takeWhile (fun c => !endsAuthority c) ∧
      (read = cleanBack more ∨ read = withoutTabs more) := by
  cases tail with
  | nil => exact ⟨cleanBack more, by rw [readRest, append_nil], .inl rfl⟩
  | cons d tail =>
    have hd : d = '/' := htail d rfl
    subst hd
    refine ⟨withoutTabs more, ?_, .inr rfl⟩
    rw [readRest, cleanBack_middle (by decide), takeWhile_append_ends (by simp; decide)]

theorem mem_of_mem_readRest {more tail : List Char} (htail : ∀ c ∈ tail.head?, c = '/')
    (h : c ∈ readRest more tail) : c ∈ more := by
  obtain ⟨read, heq, rfl | rfl⟩ := @readRest_eq more tail htail
  · exact mem_of_mem_cleanBack ((List.takeWhile_prefix _).subset (heq ▸ h))
  · exact mem_of_mem_withoutTabs ((List.takeWhile_prefix _).subset (heq ▸ h))

theorem white_not_ends (h : isWhitespace c = true) : endsAuthority c = false := by
  rw [← Bool.not_eq_true]
  intro hends
  simp only [endsAuthority, isSlash, Bool.or_eq_true, beq_iff_eq] at hends
  rcases hends with ((rfl | rfl) | rfl) | rfl <;> revert h <;> decide

theorem hostChars_readRest {back rest tail : List Char} (hback : ∀ c ∈ back, isWhitespace c = true)
    (hrest : ∀ c ∈ rest.head?, c = ':') (htail : ∀ c ∈ tail.head?, c = '/') :
    ∀ c ∈ hostChars false (readRest (back ++ rest) tail), isWhitespace c = true := by
  cases rest with
  | nil =>
    intro c hc
    rw [append_nil] at hc
    exact hback c (mem_of_mem_readRest htail (mem_of_mem_hostChars hc))
  | cons d rest =>
    have hd : d = ':' := hrest d rfl
    subst hd
    obtain ⟨read, heq, hread⟩ := @readRest_eq (back ++ ':' :: rest) tail htail
    have hcolon : ∃ after, read = withoutTabs back ++ ':' :: after := by
      rcases hread with rfl | rfl
      · exact ⟨_, cleanBack_middle (by decide) back rest⟩
      · exact ⟨withoutTabs rest, by rw [withoutTabs_append]; rfl⟩
    obtain ⟨after, rfl⟩ := hcolon
    have hwhite : ∀ c ∈ withoutTabs back, isWhitespace c = true :=
      fun c hc => hback c (mem_of_mem_withoutTabs hc)
    have hplain : ':' ∉ withoutTabs back ∧ '[' ∉ withoutTabs back := by
      constructor <;> intro hmem <;> exact absurd (hwhite _ hmem) (by decide)
    intro c hc
    rw [heq, takeWhile_append_of_pos, takeWhile_cons_of_pos (by decide),
      hostChars_append hplain.1 hplain.2] at hc
    · rw [hostChars, if_pos ⟨rfl, rfl⟩, append_nil] at hc
      exact hwhite c hc
    · intro x hx
      rw [white_not_ends (hwhite x hx)]
      rfl

/-- The host text of an accepted authority as a web client sees it: the address in
brackets and what stands behind it, or the loopback text with white space around it. -/
inductive ReadHost (text : List Char) : Prop where
  | bracketed (addr rest : List Char) (ip : IpAddr) : text = '[' :: addr ++ ']' :: rest →
      IpAddr.parseIp addr = some ip → ip.isLoopback = true → ReadHost text
  | plain (front lit back : List Char) : text = front ++ lit ++ back →
      (∀ c ∈ front ++ back, isWhitespace c = true) → LoopbackText lit → ':' ∉ lit → ReadHost text

theorem ReadHost.isLoopback {rules : HostRules} {text : List Char} {host : Host}
    (h : ReadHost text) (hparse : rules.parse text = some host) : host.isLoopback = true := by
  cases h with
  | bracketed addr rest ip heq hip hloop =>
    subst heq
    obtain ⟨inner, groups, hinner, hgroups, rfl⟩ := rules.brackets _ _ hparse
    have hsame : addr = inner := by
      have hclose : ']' ∉ inner :=
        fun hmem => bracket_not_ipChar.2 ((IpAddr.parseIp_chars hgroups).2 _ hmem)
      exact ((append_cons_inj_of_notMem hclose List.not_mem_nil).mp hinner.symm).1.symm
    subst hsame
    rw [hip] at hgroups
    cases hgroups
    exact hloop
  | plain front lit back heq hwhite hlit hcolon =>
    by_cases hpad : front ++ back = []
    · obtain ⟨rfl, rfl⟩ := List.append_eq_nil_iff.mp hpad
      rw [nil_append, append_nil] at heq
      subst heq
      rcases hlit.shape with hname | ⟨ip, hip, hloop⟩ | ⟨addr, ip, rfl, hip, hloop⟩
      · rw [rules.localhost _ hname] at hparse
        cases hparse
        rfl
      · cases ip with
        | v4 a b c d =>
          rw [rules.ipv4 _ a b c d hip] at hparse
          cases hparse
          exact hloop
        | v6 groups => exact absurd (IpAddr.colon_mem_of_v6 hip) hcolon
      · obtain ⟨inner, groups, hinner, hgroups, rfl⟩ := rules.brackets _ _ hparse
        have hsame : addr = inner := append_cancel_right hinner
        subst hsame
        exact absurd (by simp [IpAddr.colon_mem_of_v6 hgroups]) hcolon
    · obtain ⟨c, cs, hc⟩ := exists_cons_of_ne_nil hpad
      have hmem : c ∈ front ++ back := by
        rw [hc]
        exact mem_cons_self
      have hin : c ∈ text := by
        rw [heq]
        simp only [List.mem_append] at hmem ⊢
        tauto
      rw [rules.white text ⟨c, hin, hwhite c hmem⟩] at hparse
      cases hparse

theorem exists_split (url : String) : ∃ scheme tail,
    url.toList = scheme ++ authorityText url ++ tail ∧
      (scheme = "http://".toList ∨ scheme = "https://".toList ∨ scheme = []) ∧
      ∀ c ∈ tail.head?, c = '/' := by
  have hcut : ∃ scheme, url.toList = scheme ++ (withoutWebScheme url).toList ∧
      (scheme = "http://".toList ∨ scheme = "https://".toList ∨ scheme = []) := by
    unfold withoutWebScheme stripPrefix
    have hstrip : ∀ pre : String, startsWith pre url = true →
        url.toList = pre.toList ++ (String.ofList (url.toList.drop pre.toList.length)).toList := by
      intro pre hpre
      rw [String.toList_ofList]
      exact (List.prefix_iff_eq_append.mp (List.isPrefixOf_iff_prefix.mp hpre)).symm
    split_ifs with hhttp hhttps
    · exact ⟨_, hstrip _ hhttp, .inl rfl⟩
    · exact ⟨_, hstrip _ hhttp, .inl rfl⟩
    · rename_i hhttps
      exact ⟨_, hstrip _ hhttps, .inr (.inl rfl)⟩
    · exact ⟨[], rfl, .inr (.inr rfl)⟩
  obtain ⟨scheme, hsplit, hscheme⟩ := hcut
  refine ⟨scheme, (withoutWebScheme url).toList.dropWhile fun c => c != '/', ?_, hscheme, ?_⟩
  · rw [authorityText, append_assoc, takeWhile_append_dropWhile, hsplit]
  · intro c hc
    simpa using mem_head?_dropWhile hc

theorem AcceptedPort.pieces (h : AcceptedPort hostPort) :
    ∃ front lit more, hostPort = front ++ lit ++ more ∧ (∀ c ∈ front, isWhitespace c = true) ∧
      LoopbackText lit ∧ ∀ tail : List Char, (∀ c ∈ tail.head?, c = '/') →
        ReadHost (hostChars false (withoutTabs front ++ lit ++ readRest more tail)) := by
  cases h with
  | bracketed addr rest ip heq hip hloop =>
    have hclose : ']' ∉ addr :=
      fun hmem => bracket_not_ipChar.2 ((IpAddr.parseIp_chars hip).2 _ hmem)
    have hinner : withoutBrackets ('[' :: addr ++ [']']) = addr := by simp [withoutBrackets]
    refine ⟨[], '[' :: addr ++ [']'], rest, by simp [heq], by simp,
      .inr ⟨ip, by rw [hinner]; exact hip, hloop⟩, ?_⟩
    intro tail _
    refine .bracketed addr (hostChars false (readRest rest tail)) ip ?_ hip hloop
    rw [← hostChars_brackets hclose]
    simp [withoutTabs_nil]
  | plain front lit back rest heq hwhite hlit hcolon hrest =>
    have hfront : ∀ c ∈ front, isWhitespace c = true :=
      fun c hc => hwhite c (mem_append_left _ hc)
    have hback : ∀ c ∈ back, isWhitespace c = true :=
      fun c hc => hwhite c (mem_append_right _ hc)
    refine ⟨front, lit, back ++ rest, by simp [heq], hfront, hlit, ?_⟩
    intro tail htail
    refine .plain (withoutTabs front) lit (hostChars false (readRest (back ++ rest) tail)) ?_ ?_
      hlit hcolon
    · have hplain : ':' ∉ withoutTabs front ∧ '[' ∉ withoutTabs front := by
        constructor <;> intro hmem <;>
          exact absurd (hfront _ (mem_of_mem_withoutTabs hmem)) (by decide)
      rw [append_assoc, hostChars_append hplain.1 hplain.2, append_assoc]
      congr 1
      by_cases hopen : '[' ∈ lit
      · obtain ⟨addr, ip, rfl, hip, -⟩ := hlit.of_bracket hopen
        have hclose : ']' ∉ addr :=
          fun hmem => bracket_not_ipChar.2 ((IpAddr.parseIp_chars hip).2 _ hmem)
        have hbrackets := hostChars_brackets hclose (readRest (back ++ rest) tail)
        simpa using hbrackets
      · exact hostChars_append hcolon hopen _
    · intro c hc
      rcases List.mem_append.mp hc with hc | hc
      · exact hfront c (mem_of_mem_withoutTabs hc)
      · exact hostChars_readRest hback hrest htail c hc

/-- What a web client finds behind the scheme of an accepted text: slashes, user info in
which no authority ends, and then the host. -/
def FindsUser (front lit back rest : List Char) : Prop :=
  ∃ slashes info, rest = slashes ++ info ++ (withoutTabs front ++ lit ++ back) ∧
    (∀ c ∈ slashes, isSlash c = true) ∧ (info = [] ∨ ∃ name, info = name ++ ['@']) ∧
    ∀ c ∈ info, endsAuthority c = false

theorem findsUser_of_scheme {scheme user front lit back name rest : List Char}
    (hscheme : isWebScheme scheme = true) (huser : user = [] ∨ ∃ info, user = info ++ ['@'])
    (hends : ∀ c ∈ user, endsAuthority c = false)
    (hsplit : splitScheme (withoutTabs ((scheme ++ "://".toList ++ user ++ front).dropWhile
      isC0OrSpace) ++ lit ++ back) = some (name, rest)) : FindsUser front lit back rest := by
  have hprint : ∀ c ∈ scheme ++ "://".toList, 0x20 < c.toNat := by
    rcases eq_of_isWebScheme hscheme with rfl | rfl <;> exact forall_mem_of_all (by decide)
  have hkept : withoutTabs ((scheme ++ "://".toList ++ user ++ front).dropWhile isC0OrSpace) =
      scheme ++ "://".toList ++ withoutTabs user ++ withoutTabs front := by
    rw [dropWhile_eq_self_of_head, withoutTabs_append, withoutTabs_append,
      withoutTabs_eq_self hprint]
    intro c hc
    rcases eq_of_isWebScheme hscheme with rfl | rfl <;> cases hc <;> decide
  have hlower := map_toLower_of_web hscheme
  have hread := @splitScheme_eq scheme (by rw [hlower]; exact hscheme)
    ("//".toList ++ withoutTabs user ++ withoutTabs front ++ lit ++ back)
  rw [hkept] at hsplit
  have hrest : rest = "//".toList ++ withoutTabs user ++ withoutTabs front ++ lit ++ back := by
    have hsame : scheme ++ ':' :: ("//".toList ++ withoutTabs user ++ withoutTabs front ++ lit ++
        back) = scheme ++ "://".toList ++ withoutTabs user ++ withoutTabs front ++ lit ++ back := by
      simp
    rw [hsame, hsplit] at hread
    exact congrArg Prod.snd (Option.some.inj hread)
  refine ⟨"//".toList, withoutTabs user, by simp [hrest], forall_mem_of_all (by decide), ?_,
    fun c hc => hends c (mem_of_mem_withoutTabs hc)⟩
  rcases huser with rfl | ⟨info, rfl⟩
  · exact .inl rfl
  · refine .inr ⟨withoutTabs info, ?_⟩
    rw [withoutTabs_append, @withoutTabs_eq_self ['@'] (forall_mem_of_all (by decide))]

theorem findsUser_of_user {info front lit back name rest : List Char}
    (hends : ∀ c ∈ info, endsAuthority c = false)
    (hsplit : splitScheme (withoutTabs ((info ++ ['@'] ++ front).dropWhile isC0OrSpace) ++ lit ++
      back) = some (name, rest)) : FindsUser front lit back rest := by
  have hkept : withoutTabs ((info ++ ['@'] ++ front).dropWhile isC0OrSpace) =
      withoutTabs (info.dropWhile isC0OrSpace) ++ '@' :: withoutTabs front := by
    rw [dropWhile_append_middle (by decide) (forall_mem_of_all (by decide)), withoutTabs_append,
      withoutTabs_append,
      @withoutTabs_eq_self ['@'] (forall_mem_of_all (by decide)), append_assoc]
    rfl
  rw [hkept, append_assoc, append_assoc, cons_append] at hsplit
  obtain ⟨before, after, hinfo, rfl⟩ := splitScheme_append (by decide) (by decide) hsplit
  refine ⟨[], after ++ ['@'], by simp, by simp, .inr ⟨after, rfl⟩, ?_⟩
  intro c hc
  rcases List.mem_append.mp hc with hc | hc
  · have hmem : c ∈ withoutTabs (info.dropWhile isC0OrSpace) := by
      rw [hinfo]
      simp [hc]
    exact hends c ((dropWhile_suffix _).subset (mem_of_mem_withoutTabs hmem))
  · have : c = '@' := by simpa using hc
    subst this
    decide

theorem not_web_of_lit {lit back name rest : List Char} (hlit : LoopbackText lit)
    (hsplit : splitScheme (lit ++ back) = some (name, rest)) : isWebScheme name = false := by
  rw [← Bool.not_eq_true]
  intro hweb
  obtain ⟨c, hc, hh⟩ := splitScheme_head hsplit hweb
  rw [head?_append_of_ne_nil _ hlit.chars.1] at hc
  exact hlit.head hc hh

theorem not_white_of_trim {s : String} (h : c ∈ (trim s).toList.head?) :
    isWhitespace c = false := by
  rw [trim, String.toList_ofList, trimChars] at h
  obtain ⟨back, hback⟩ := rdropWhile_prefix isWhitespace (s.toList.dropWhile isWhitespace)
  have hhead : c ∈ (s.toList.dropWhile isWhitespace).head? := by
    rw [← hback, head?_append, Option.mem_def.mp h]
    rfl
  exact mem_head?_dropWhile hhead

/-- Where nothing cuts the authority of an accepted text short, a web client reads the host
the validators checked. -/
theorem readHost_of_accepted {url : String} {text : List Char} (haccept : remoteUrl url = false)
    (hne : trim url ≠ "") (hcut : cutShort url = false)
    (hweb : webHost (trim url).toList = some text) : ReadHost text := by
  obtain ⟨scheme, tail, hurl, hscheme, htail⟩ := exists_split (trim url)
  set authority := authorityText (trim url) with hauthority
  have hport : AcceptedPort (afterLast '@' authority) := by
    apply accepted_shape
    rw [remoteUrl_eq_false_iff hne] at haccept
    simpa using (isLoopbackHost_iff _).mp haccept
  obtain ⟨front, lit, more, hhost, hfront, hlit, hread⟩ := hport.pieces
  have hsplit : userPart authority ++ afterLast '@' authority = authority :=
    rdropWhile_append_rtakeWhile
  have huser : userPart authority = [] ∨ ∃ info, userPart authority = info ++ ['@'] :=
    (userPart_cases authority).imp And.left fun ⟨user, h, _⟩ => ⟨user, h⟩
  have hends : ∀ c ∈ userPart authority, endsAuthority c = false := by
    intro c hc
    rw [← Bool.not_eq_true]
    intro hend
    rw [cutShort, ← hauthority, ← Bool.not_eq_true, any_eq_true] at hcut
    exact hcut ⟨c, hc, hend⟩
  have hclean : clean (trim url).toList =
      withoutTabs ((scheme ++ userPart authority ++ front).dropWhile isC0OrSpace) ++ lit ++
        cleanBack (more ++ tail) := by
    have hpieces : (trim url).toList =
        (scheme ++ userPart authority ++ front) ++ lit ++ (more ++ tail) := by
      calc (trim url).toList =
            scheme ++ (userPart authority ++ afterLast '@' authority) ++ tail := by
            rw [hsplit, hurl]
        _ = _ := by
            rw [hhost]
            simp
    rw [hpieces, clean_append hlit.chars.1 fun c hc => (hlit.chars.2 c hc).bounds.1]
  unfold webHost at hweb
  rw [hclean] at hweb
  split at hweb
  · rename_i name rest hname
    split_ifs at hweb with hisweb
    cases hweb
    have hfinds : FindsUser front lit (cleanBack (more ++ tail)) rest := by
      rcases hscheme with rfl | rfl | rfl
      · exact findsUser_of_scheme (by decide : isWebScheme "http".toList = true) huser hends hname
      · exact findsUser_of_scheme (by decide : isWebScheme "https".toList = true) huser hends hname
      · rw [nil_append] at hname
        rcases huser with hnone | ⟨info, hinfo⟩
        · have hnil : front = [] := by
            by_contra hfrontne
            obtain ⟨c, cs, rfl⟩ := exists_cons_of_ne_nil hfrontne
            rw [hnone, nil_append] at hsplit
            have hhead : c ∈ (trim url).toList.head? := by
              rw [hurl, ← hsplit, hhost]
              rfl
            have := not_white_of_trim hhead
            rw [hfront c mem_cons_self] at this
            cases this
          rw [hnone, hnil, nil_append, dropWhile_nil, withoutTabs_nil,
            nil_append] at hname
          rw [not_web_of_lit hlit hname] at hisweb
          cases hisweb
        · rw [hinfo] at hname hends
          exact findsUser_of_user (fun c hc => hends c (mem_append_left _ hc)) hname
    obtain ⟨slashes, info, rfl, hslashes, hinfo, hinfoEnds⟩ := hfinds
    have hnotat : '@' ∉ withoutTabs front ++ lit ++ readRest more tail := by
      have hhostat := not_mem_afterLast '@' authority
      rw [hhost] at hhostat
      simp only [List.mem_append, not_or] at hhostat ⊢
      exact ⟨⟨fun h => hhostat.1.1 (mem_of_mem_withoutTabs h), hhostat.1.2⟩,
        fun h => hhostat.2 (mem_of_mem_readRest htail h)⟩
    have hauthorityOf : authorityOf (slashes ++ info ++ (withoutTabs front ++ lit ++
        cleanBack (more ++ tail))) = info ++ (withoutTabs front ++ lit ++ readRest more tail) := by
      have hlitEnds : ∀ c ∈ lit, endsAuthority c = false :=
        fun c hc => (hlit.chars.2 c hc).bounds.2.2.2
      have huserEnds : ∀ c ∈ info ++ withoutTabs front, endsAuthority c = false := by
        intro c hc
        rcases List.mem_append.mp hc with hc | hc
        · exact hinfoEnds c hc
        · exact white_not_ends (hfront c (mem_of_mem_withoutTabs hc))
      have hhead : ∀ c ∈ (lit ++ cleanBack (more ++ tail)).head?, isSlash c = false := by
        intro c hc
        rw [head?_append_of_ne_nil _ hlit.chars.1] at hc
        exact not_slash_of_not_ends (hlitEnds c (mem_of_mem_head? hc))
      have happend := authorityOf_append hslashes huserEnds hhead
      rw [takeWhile_append_of_pos (by simpa using hlitEnds)] at happend
      simpa [readRest] using happend
    have hafter : afterLast '@' (info ++ (withoutTabs front ++ lit ++ readRest more tail)) =
        withoutTabs front ++ lit ++ readRest more tail := by
      rcases hinfo with rfl | ⟨user, rfl⟩
      · exact afterLast_of_not_mem hnotat
      · rw [append_assoc]
        exact afterLast_append hnotat
    rw [hostText, hauthorityOf, hafter]
    exact hread tail htail
  · cases hweb

end GenieClaw.Egress
