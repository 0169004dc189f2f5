import Chen.Library.Machine
import Chen.Library.Simulation
import Chen.Security.Backends

/-!
# What the inner backend learns

Two runs of an encrypted backend on texts of the same lengths, as the inner backend sees them.
Ciphertexts are opaque tokens. What the inner backend learns beside lengths is what `decode` and
`count_tokens` hand to it in the clear.
-/

namespace Chen

open Effect

/-! ## Opaque ciphertexts -/

/-- What `aesgcm.decrypt` is given of a block: the nonce, and the ciphertext with its tag. -/
def EncryptedBlock.sealed (block : EncryptedBlock) : Bytes × Bytes :=
  (block.nonce, block.ciphertext ++ block.tag)

/-- An ideal cipher. A block depends on the number of the encryption and on the length of the text,
and so does the decision to refuse the text. -/
structure Tokens where
  block : ℕ → ℕ → EncryptedBlock
  refuse : ℕ → Option Exn
  /-- The identifiers under which the decryptor has the key. -/
  knows : String → Bool
  /-- What the decryptor makes of a block that was not sealed here. -/
  foreign : EncryptedBlock → Except Exn String

/-- What has been sealed so far, the last first, with the texts behind it. -/
structure Issued where
  used : ℕ := 0
  texts : Dict (Bytes × Bytes) String := []

namespace Tokens

variable (tokens : Tokens)

/-- The next block. -/
def next (s : Issued) (text : String) : EncryptedBlock :=
  tokens.block s.used (Str.utf8 text).length

/-- A block for a text. -/
def encryptBlock (text : String) : EStateM Exn Issued EncryptedBlock := fun s =>
  match tokens.refuse (Str.utf8 text).length with
  | some e => .error e s
  | none =>
    let block := tokens.next s text
    .ok block { used := s.used + 1, texts := (block.sealed, text) :: s.texts }

/-- The text behind a block that was sealed here, if its identifier leads to the key. -/
def issuedText (s : Issued) (block : EncryptedBlock) : Option String :=
  if tokens.knows block.keyId then Dict.get? s.texts block.sealed else none

/-- Of what was sealed here, only what was issued is opened. -/
def decryptBlock (s : Issued) (block : EncryptedBlock) : Except Exn String :=
  match tokens.issuedText s block with
  | some text => .ok text
  | none => tokens.foreign block

/-- The ideal cipher, which writes and reads its blocks as `EncryptedBackend` does. -/
def cipher : TextCipher Issued where
  encryptText := encryptTextWith tokens.encryptBlock
  decryptText s := decryptTextWith (tokens.decryptBlock s)

/-- The block that a text is read as: characters outside of the alphabet are skipped. -/
def parse (text : String) : Except Exn EncryptedBlock := do
  let raw ← Base64.b64decode text
  EncryptedBlock.deserialize raw

/-- What `_decrypt_text` finds behind a text: `none` if it returns the text as it is. -/
def opened (s : Issued) (text : String) : Option String :=
  (parse text >>= tokens.decryptBlock s).toOption

/-- `_decrypt_text` returns what it finds, or else the text. -/
theorem decryptText_eq (s : Issued) (text : String) :
    tokens.cipher.decryptText s text = (tokens.opened s text).getD text := by
  have hbind : (parse text >>= tokens.decryptBlock s) = (do
      let raw ← Base64.b64decode text
      let block ← EncryptedBlock.deserialize raw
      tokens.decryptBlock s block) := by
    rw [parse]
    cases Base64.b64decode text <;> rfl
  unfold cipher decryptTextWith opened
  rw [hbind]
  dsimp only
  split
  · next h => rw [h]; rfl
  · next h => rw [h]; rfl

end Tokens

/-! ## Calls -/

/-- What an inner backend receives. -/
inductive InnerCall where
  | generate (prompt : String) (maxTokens : ℤ)
  | encode (prompt : String)
  | decode (cache : KVCache) (maxTokens : ℤ)
  | transferCache (cache : KVCache)
  | countTokens (text : String)
deriving DecidableEq

section Recording

variable {σ κ α : Type}

/-- `x`, on record as the answer to a call. -/
def received (call : InnerCall) (x : EStateM Exn σ α) : EStateM Exn (σ × List InnerCall) α :=
  fun s => onFirst x (s.1, s.2 ++ [call])

/-- The backend with a record of the calls that it received. -/
def Backend.recorded (inner : Backend σ) : Backend (σ × List InnerCall) where
  paramsM := inner.paramsM
  resolvedParamsM := inner.resolvedParamsM
  capabilities := inner.capabilities
  modelId := inner.modelId
  generate prompt maxTokens :=
    received (.generate prompt maxTokens) (inner.generate prompt maxTokens)
  encode prompt := received (.encode prompt) (inner.encode prompt)
  decode cache maxTokens := received (.decode cache maxTokens) (inner.decode cache maxTokens)
  transferCache cache := received (.transferCache cache) (inner.transferCache cache)
  countTokens := inner.countTokens.map fun count text => received (.countTokens text) (count text)

/-- The calls that the inner backend has received. -/
def innerLog (s : (σ × List InnerCall) × κ) : List InnerCall := s.1.2

/-- A call to the inner backend is noted. -/
theorem emits_received (call : InnerCall) (x : EStateM Exn σ α) :
    Emits (@innerLog σ κ) (onFirst (received call x)) fun es _ => es = [call] := by
  rintro ⟨⟨world, log⟩, issued⟩
  refine ⟨[call], ?_, rfl⟩
  simp only [onFirst, received, innerLog]
  cases x world <;> rfl

/-- What happens to the issued texts is not. -/
theorem emits_onSecond (x : EStateM Exn κ α) :
    Emits (@innerLog σ κ) (onSecond x) fun es _ => es = [] := by
  refine Emits.silent ?_ fun _ => rfl
  rintro ⟨⟨world, log⟩, issued⟩
  simp only [onSecond]
  cases x issued <;> rfl

end Recording

/-- The cache of a call: one that was given, or what an earlier call returned. -/
inductive CacheArg where
  | given (cache : KVCache)
  | result (call : ℕ)
deriving DecidableEq

/-- The cache, if there is one. -/
def CacheArg.resolve (caches : List (Option KVCache)) : CacheArg → Option KVCache
  | .given cache => some cache
  | .result call => caches[call]?.join

/-- A call on a backend. -/
inductive BackendCall where
  | generate (prompt : String) (maxTokens : ℤ)
  | encode (prompt : String)
  | transferCache (cache : CacheArg)
  | decode (cache : CacheArg) (maxTokens : ℤ)
  | countTokens (text : String)
deriving DecidableEq

/-- Caches that differ at most in the text of a given one. The lengths are the same. -/
inductive CacheArg.Alike : CacheArg → CacheArg → Prop
  | given (cache : KVCache) {text : String}
      (hlen : (Str.utf8 cache.sourceText).length = (Str.utf8 text).length) :
      Alike (.given cache) (.given { cache with sourceText := text })
  | result (call : ℕ) : Alike (.result call) (.result call)

/-- Calls that differ at most in their texts, which have the same length. -/
inductive BackendCall.Alike : BackendCall → BackendCall → Prop
  | generate {prompt prompt' : String} (maxTokens : ℤ)
      (hlen : (Str.utf8 prompt).length = (Str.utf8 prompt').length) :
      Alike (.generate prompt maxTokens) (.generate prompt' maxTokens)
  | encode {prompt prompt' : String}
      (hlen : (Str.utf8 prompt).length = (Str.utf8 prompt').length) :
      Alike (.encode prompt) (.encode prompt')
  | transferCache {cache cache' : CacheArg} (halike : cache.Alike cache') :
      Alike (.transferCache cache) (.transferCache cache')
  | decode {cache cache' : CacheArg} (maxTokens : ℤ) (halike : cache.Alike cache') :
      Alike (.decode cache maxTokens) (.decode cache' maxTokens)
  | countTokens {text text' : String} (hlen : (Str.utf8 text).length = (Str.utf8 text').length) :
      Alike (.countTokens text) (.countTokens text')

/-- A call, and the cache that it returns. A call on a cache that is not there is not made. -/
def answer {ω : Type} (backend : Backend ω) (caches : List (Option KVCache)) :
    BackendCall → EStateM Exn ω (Option KVCache)
  | .generate prompt maxTokens => do
    let _ ← backend.generate prompt maxTokens
    pure none
  | .encode prompt => do
    let cache ← backend.encode prompt
    pure (some cache)
  | .transferCache arg =>
    match arg.resolve caches with
    | none => pure none
    | some cache => do
      let transferred ← backend.transferCache cache
      pure (some transferred)
  | .decode arg maxTokens =>
    match arg.resolve caches with
    | none => pure none
    | some cache => do
      let _ ← backend.decode cache maxTokens
      pure none
  | .countTokens text =>
    match backend.countTokens with
    | none => pure none
    | some count => do
      let _ ← count text
      pure none

/-- The world after some calls, and the caches that the calls returned. -/
structure Session (ω : Type) where
  world : ω
  caches : List (Option KVCache)

/-- One call more. A call that raises returns no cache. -/
def Session.perform {ω : Type} (backend : Backend ω) (s : Session ω) (call : BackendCall) :
    Session ω :=
  let r := answer backend s.caches call s.world
  ⟨final r, s.caches ++ [(outcome r).toOption.join]⟩

/-! ## Two runs -/

variable {σ : Type} (tokens : Tokens) (inner : Backend σ)

/-- The world of a recorded backend under the ideal cipher. -/
abbrev Observed (σ : Type) : Type := (σ × List InnerCall) × Issued

/-- The encrypted backend, with its inner backend on record. -/
def observed : Backend (Observed σ) := tokens.cipher.wrap inner.recorded

/-- The session after a series of calls on a new encrypted backend. -/
def sessionAfter (world : σ) (calls : List BackendCall) : Session (Observed σ) :=
  Machine.run (Session.perform (observed tokens inner)) ⟨((world, []), {}), []⟩ calls

/-- What the inner backend receives in the course of a series of calls. -/
def innerCalls (world : σ) (calls : List BackendCall) : List InnerCall :=
  innerLog (sessionAfter tokens inner world calls).world

/-- The text that a call hands to the inner backend in the clear: the text to be counted, the text
of a given cache, or the plaintext that `_decrypt_text` finds behind the text of a cache. -/
def revealed (s : Session (Observed σ)) : BackendCall → Option String
  | .countTokens text => if inner.countTokens.isSome then some text else none
  | .transferCache (.given cache) => some cache.sourceText
  | .decode (.given cache) _ => some (tokens.cipher.decryptText s.world.2 cache.sourceText)
  | .decode (.result call) _ =>
    ((CacheArg.result call).resolve s.caches).bind fun cache =>
      tokens.opened s.world.2 cache.sourceText
  | _ => none

/-- `decode` once the text of the cache is decrypted. -/
def decodeText (cache : KVCache) (decryptedText : String) (maxTokens : ℤ) :
    EStateM Exn (Observed σ) String := do
  let rawOutput ← onFirst
    (inner.recorded.decode { cache with sourceText := decryptedText } maxTokens)
  pure (tokens.cipher.decryptText (← get).2 rawOutput)

variable {tokens}

/-- `decode` hands the text that it decrypted to the inner backend. -/
theorem observed_decode (cache : KVCache) (maxTokens : ℤ) (s : Observed σ) :
    (observed tokens inner).decode cache maxTokens s =
      decodeText tokens inner cache (tokens.cipher.decryptText s.2 cache.sourceText) maxTokens s := rfl

variable {inner}

/-! ### One run: what a call logs -/

/-- This call is noted with the text. -/
theorem emits_decodeText (inner : Backend σ) (cache : KVCache) (decryptedText : String)
    (maxTokens : ℤ) :
    Emits (@innerLog σ Issued) (decodeText tokens inner cache decryptedText maxTokens)
      fun es _ => es = [.decode { cache with sourceText := decryptedText } maxTokens] := by
  refine (emits_received _ _).bind ?_ fun _ _ h => h
  intro es rawOutput hes
  exact Emits.silent (fun _ => rfl) fun _ => by rw [List.append_nil, hes]

/-- Logs only grow. -/
theorem emits_answer (caches : List (Option KVCache)) (call : BackendCall) :
    Emits innerLog (answer (observed tokens inner) caches call) fun _ _ => True := by
  -- the log only grows in each part of an answer, and so in the whole
  have hthen : ∀ {α β : Type} {x : EStateM Exn (Observed σ) α}
      {f : α → EStateM Exn (Observed σ) β}, Emits innerLog x (fun _ _ => True) →
      (∀ a, Emits innerLog (f a) fun _ _ => True) → Emits innerLog (x >>= f) fun _ _ => True :=
    fun hx hf => hx.bind (fun _ a _ => hf a) fun _ _ _ => trivial
  have hpure : ∀ {α : Type} (a : α),
      Emits innerLog (pure a : EStateM Exn (Observed σ) α) fun _ _ => True :=
    fun _ => Emits.pure trivial
  have hencrypt : ∀ text, Emits (@innerLog σ Issued)
      (onSecond (tokens.cipher.encryptText text)) fun _ _ => True :=
    fun text => (emits_onSecond _).mono fun _ _ _ => trivial
  have hinner : ∀ {α : Type} (call : InnerCall) (x : EStateM Exn σ α),
      Emits (@innerLog σ Issued) (onFirst (received call x)) fun _ _ => True :=
    fun call x => (emits_received call x).mono fun _ _ _ => trivial
  cases call with
  | generate prompt maxTokens =>
    refine hthen (hthen (hencrypt prompt) fun encryptedPrompt => hthen (hinner _ _) ?_)
      fun _ => hpure _
    exact fun rawOutput => Emits.silent (fun _ => rfl) fun _ => trivial
  | encode prompt =>
    exact hthen (hthen (hencrypt prompt) fun encryptedPrompt => hinner _ _) fun _ => hpure _
  | transferCache arg =>
    rw [answer]
    cases arg.resolve caches with
    | none => exact hpure _
    | some cache => exact hthen (hinner _ _) fun _ => hpure _
  | decode arg maxTokens =>
    rw [answer]
    cases arg.resolve caches with
    | none => exact hpure _
    | some cache =>
      refine hthen (fun s => ?_) fun _ => hpure _
      rw [observed_decode]
      exact (emits_decodeText inner cache _ maxTokens).mono (fun _ _ _ => trivial) s
  | countTokens text =>
    refine hthen ?_ fun _ => hpure _
    rw [TextCipher.countTokens]
    split
    case h_1 count hcount =>
      obtain ⟨count', -, rfl⟩ := Option.map_eq_some_iff.mp hcount
      exact hinner _ _
    case h_2 => exact hpure _

/-! ### Two runs: worlds that the inner backend cannot tell apart -/

/-- The same blocks have been sealed, for whatever texts. -/
structure Issued.Same (s t : Issued) : Prop where
  used : s.used = t.used
  blocks : s.texts.map Prod.fst = t.texts.map Prod.fst

/-- The inner backend is in the same state and has received the same calls, and the same blocks have
been sealed. -/
structure Observed.Same (s t : Observed σ) : Prop where
  inner : s.1 = t.1
  issued : s.2.Same t.2

/-- What the inner backend does, it does in both worlds. -/
theorem simulates_onFirst {α : Type} (x : EStateM Exn (σ × List InnerCall) α) :
    Simulates (@Observed.Same σ) (· = ·) (onFirst x) (onFirst x) := by
  rintro ⟨w, issued⟩ ⟨w', issued'⟩ ⟨rfl, hissued⟩
  simp only [onFirst]
  cases x w with
  | ok a w' => exact ⟨⟨rfl, hissued⟩, .ok rfl⟩
  | error e w' => exact ⟨⟨rfl, hissued⟩, .error e⟩

/-- What the cipher does is seen in its answers only. -/
theorem simulates_onSecond {α : Type} {x y : EStateM Exn Issued α}
    (h : Simulates Issued.Same (· = ·) x y) :
    Simulates (@Observed.Same σ) (· = ·) (onSecond x) (onSecond y) := by
  rintro ⟨w, issued⟩ ⟨w', issued'⟩ ⟨hinner, hissued⟩
  obtain ⟨hfinal, hagree⟩ := h issued issued' hissued
  simp only [onSecond]
  cases hx : x issued with
  | ok a s =>
    cases hy : y issued' with
    | ok b s' =>
      rw [hx, hy] at hfinal hagree
      exact ⟨⟨hinner, hfinal⟩, hagree⟩
    | error e s' =>
      rw [hx, hy] at hagree
      cases hagree
  | error e s =>
    cases hy : y issued' with
    | ok b s' =>
      rw [hx, hy] at hagree
      cases hagree
    | error e' s' =>
      rw [hx, hy] at hfinal hagree
      exact ⟨⟨hinner, hfinal⟩, hagree⟩

/-- Texts of the same length are sealed in the same block. -/
theorem simulates_seal (tokens : Tokens) {text text' : String}
    (hlen : (Str.utf8 text).length = (Str.utf8 text').length) :
    Simulates Issued.Same (· = ·) (tokens.encryptBlock text) (tokens.encryptBlock text') := by
  rintro s t ⟨hused, hblocks⟩
  have hnext : tokens.next s text = tokens.next t text' := by
    rw [Tokens.next, Tokens.next, hlen, hused]
  simp only [Tokens.encryptBlock, hlen]
  cases tokens.refuse (Str.utf8 text').length with
  | some e => exact ⟨⟨hused, hblocks⟩, .error e⟩
  | none =>
    refine ⟨⟨congrArg (· + 1) hused, ?_⟩, .ok hnext⟩
    show (_ :: s.texts).map Prod.fst = (_ :: t.texts).map Prod.fst
    rw [List.map_cons, List.map_cons, hblocks, hnext]

/-- Texts of the same length have the same ciphertext. -/
theorem simulates_encrypt {text text' : String}
    (hlen : (Str.utf8 text).length = (Str.utf8 text').length) :
    Simulates (@Observed.Same σ) (· = ·) (onSecond (tokens.cipher.encryptText text))
      (onSecond (tokens.cipher.encryptText text')) := by
  apply simulates_onSecond
  refine (simulates_seal tokens hlen).bind fun block block' heq => ?_
  subst heq
  exact (Simulates.liftExcept (Agree.refl _)).bind fun _ _ heq => Simulates.pure (by rw [heq])

/-- Equal texts keep two sessions the same. -/
theorem simulates_decodeText (inner : Backend σ) (cache : KVCache) (decryptedText : String)
    (maxTokens : ℤ) : Simulates (@Observed.Same σ) (fun _ _ => True)
      (decodeText tokens inner cache decryptedText maxTokens)
      (decodeText tokens inner cache decryptedText maxTokens) :=
  (simulates_onFirst _).bind fun _ _ _ => Simulates.get.bind fun _ _ _ => Simulates.pure trivial

/-- A text is opened in both worlds or in none. -/
theorem Issued.Same.opened_eq_none_iff {s t : Issued} (h : s.Same t) (text : String) :
    tokens.opened s text = none ↔ tokens.opened t text = none := by
  have hkeys : ∀ (d : Dict (Bytes × Bytes) String) k,
      Dict.get? d k = none ↔ ∀ c ∈ d.map Prod.fst, c ≠ k := by
    intro d k
    rw [Dict.get?_eq_none_iff, List.forall_mem_map]
  unfold Tokens.opened
  cases Tokens.parse text with
  | error e => rfl
  | ok block =>
    have hissued : tokens.issuedText s block = none ↔ tokens.issuedText t block = none := by
      unfold Tokens.issuedText
      split
      · rw [hkeys, hkeys, h.blocks]
      · rfl
    show (tokens.decryptBlock s block).toOption = none ↔ (tokens.decryptBlock t block).toOption = none
    unfold Tokens.decryptBlock
    cases hs : tokens.issuedText s block with
    | none => rw [hissued.mp hs]
    | some plaintext =>
      cases ht : tokens.issuedText t block with
      | none => rw [hissued.mpr ht] at hs; cases hs
      | some plaintext' =>
        exact iff_of_false (Option.some_ne_none plaintext) (Option.some_ne_none plaintext')

/-- A text is decrypted alike in both worlds if and only if the same is found behind it. -/
theorem Observed.Same.decryptText_eq_iff {s t : Observed σ} (h : s.Same t) (text : String) :
    tokens.cipher.decryptText s.2 text = tokens.cipher.decryptText t.2 text ↔
      tokens.opened s.2 text = tokens.opened t.2 text := by
  have hnone : tokens.opened s.2 text = none ↔ tokens.opened t.2 text = none :=
    h.issued.opened_eq_none_iff text
  rw [tokens.decryptText_eq, tokens.decryptText_eq]
  cases hs : tokens.opened s.2 text with
  | none => simp [hnone.mp hs]
  | some plaintext =>
    cases ht : tokens.opened t.2 text with
    | none => rw [hnone.mpr ht] at hs; cases hs
    | some plaintext' => simp

/-- Caches whose texts stand for the same plaintext are decoded alike. -/
theorem decode_same {s t : Observed σ} (h : s.Same t) {cache : KVCache} {text : String}
    (hdecrypt : tokens.cipher.decryptText s.2 cache.sourceText =
      tokens.cipher.decryptText t.2 text) (maxTokens : ℤ) :
    (final ((observed tokens inner).decode cache maxTokens s)).Same
        (final ((observed tokens inner).decode { cache with sourceText := text } maxTokens t)) ∧
      Agree (fun _ _ => True) (outcome ((observed tokens inner).decode cache maxTokens s))
        (outcome ((observed tokens inner).decode { cache with sourceText := text }
          maxTokens t)) := by
  rw [observed_decode, observed_decode, ← hdecrypt]
  exact simulates_decodeText inner cache _ maxTokens s t h

/-- A text counts alike in both worlds if it is the same or there is no tokenizer to see it. -/
theorem simulates_countTokens {text text' : String}
    (htext : inner.countTokens.isSome = true → text = text') :
    Simulates (@Observed.Same σ) (fun _ _ => True)
      (TextCipher.countTokens inner.recorded text)
      (TextCipher.countTokens inner.recorded text') := by
  simp only [TextCipher.countTokens, Backend.recorded]
  cases hcount : inner.countTokens with
  | none => exact Simulates.pure trivial
  | some count =>
    cases htext (by rw [hcount, Option.isSome_some])
    exact (simulates_onFirst _).mono fun _ _ _ => trivial

/-- A call that reveals the same in both worlds leaves them the same. -/
theorem answer_same {s t : Observed σ} (h : s.Same t) {caches : List (Option KVCache)}
    {call call' : BackendCall} (halike : call.Alike call')
    (hrevealed : revealed tokens inner ⟨s, caches⟩ call = revealed tokens inner ⟨t, caches⟩ call') :
    (final (answer (observed tokens inner) caches call s)).Same
        (final (answer (observed tokens inner) caches call' t)) ∧
      Agree (· = ·) (outcome (answer (observed tokens inner) caches call s))
        (outcome (answer (observed tokens inner) caches call' t)) := by
  have hinner : ∀ {α : Type} (x : EStateM Exn (σ × List InnerCall) α),
      Simulates (@Observed.Same σ) (· = ·) (onFirst x) (onFirst x) :=
    simulates_onFirst
  -- where nothing of an answer is kept, it does not matter what it is
  have hquiet : ∀ {α : Type} (_ _ : α), True →
      Simulates (@Observed.Same σ) (· = ·)
        (pure none : EStateM Exn _ (Option KVCache)) (pure none) :=
    fun _ _ _ => Simulates.pure rfl
  cases halike with
  | generate maxTokens hlen =>
    refine Simulates.bind_apply (Simulates.bind (simulates_encrypt hlen) (fun c c' hc => ?_) s t h)
      hquiet
    subst hc
    exact (hinner _).bind fun _ _ _ => Simulates.get.bind fun _ _ _ => Simulates.pure trivial
  | encode hlen =>
    refine Simulates.bind (Q := (· = ·)) ?_
      (fun cache cache' heq => Simulates.pure (congrArg some heq)) s t h
    refine (simulates_encrypt hlen).bind fun c c' hc => ?_
    subst hc
    exact hinner _
  | transferCache harg =>
    have htransfer : ∀ cache, Simulates (@Observed.Same σ) (· = ·)
        (do pure (some (← (observed tokens inner).transferCache cache)))
        (do pure (some (← (observed tokens inner).transferCache cache))) :=
      fun cache => (hinner _).bind fun _ _ heq => Simulates.pure (congrArg some heq)
    cases harg with
    | given cache hlen =>
      cases Option.some.inj hrevealed
      exact htransfer cache s t h
    | result call =>
      simp only [answer]
      cases (CacheArg.result call).resolve caches with
      | none => exact ⟨h, .ok rfl⟩
      | some cache => exact htransfer cache s t h
  | decode maxTokens harg =>
    cases harg with
    | given cache hlen =>
      exact Simulates.bind_apply (decode_same h (Option.some.inj hrevealed) maxTokens) hquiet
    | result call =>
      simp only [answer, revealed] at hrevealed ⊢
      cases hcache : (CacheArg.result call).resolve caches with
      | none => exact ⟨h, .ok rfl⟩
      | some cache =>
        -- the text of the cache stands for the same plaintext in both worlds
        rw [hcache, Option.bind_some, Option.bind_some, ← h.decryptText_eq_iff] at hrevealed
        exact Simulates.bind_apply (decode_same h hrevealed maxTokens) hquiet
  | countTokens hlen =>
    refine Simulates.bind_apply (simulates_countTokens (fun hsome => ?_) s t h) hquiet
    simp only [revealed, hsome, if_true] at hrevealed
    exact Option.some.inj hrevealed

/-- The logs of two programs that log one call each go on differently if the calls differ. -/
theorem logs_differ {α β : Type} {x : EStateM Exn (Observed σ) α}
    {y : EStateM Exn (Observed σ) β} {e f : InnerCall}
    (hx : Emits innerLog x fun es _ => es = [e]) (hy : Emits innerLog y fun es _ => es = [f])
    (hne : e ≠ f) (s t : Observed σ) :
    ∃ e f, e ≠ f ∧ innerLog (final (x s)) = innerLog s ++ [e] ∧
      innerLog (final (y t)) = innerLog t ++ [f] := by
  obtain ⟨_, hs, rfl⟩ := hx s
  obtain ⟨_, ht, rfl⟩ := hy t
  exact ⟨e, f, hne, hs, ht⟩

/-- Caches whose texts stand for different plaintexts are decoded differently. -/
theorem decode_differ {s t : Observed σ} {cache : KVCache} {text : String}
    (h : tokens.cipher.decryptText s.2 cache.sourceText ≠ tokens.cipher.decryptText t.2 text)
    (maxTokens : ℤ) : ∃ e f, e ≠ f ∧
      innerLog (final ((observed tokens inner).decode cache maxTokens s)) = innerLog s ++ [e] ∧
      innerLog (final ((observed tokens inner).decode { cache with sourceText := text }
        maxTokens t)) = innerLog t ++ [f] := by
  simp only [observed_decode]
  refine logs_differ (emits_decodeText inner _ _ maxTokens) (emits_decodeText inner _ _ maxTokens)
    (fun heq => ?_) s t
  exact h (congrArg KVCache.sourceText (InnerCall.decode.inj heq).1)

/-- A call that reveals different texts is logged differently. -/
theorem answer_differ {s t : Observed σ} (h : s.Same t) {caches : List (Option KVCache)}
    {call call' : BackendCall} (halike : call.Alike call')
    (hrevealed : revealed tokens inner ⟨s, caches⟩ call ≠ revealed tokens inner ⟨t, caches⟩ call') :
    ∃ e f, e ≠ f ∧
      innerLog (final (answer (observed tokens inner) caches call s)) = innerLog s ++ [e] ∧
      innerLog (final (answer (observed tokens inner) caches call' t)) = innerLog t ++ [f] := by
  cases halike with
  | generate maxTokens hlen => exact absurd rfl hrevealed
  | encode hlen => exact absurd rfl hrevealed
  | transferCache harg =>
    cases harg with
    | @given cache text hlen =>
      have htransfer : ∀ cache, Emits (@innerLog σ Issued)
          ((observed tokens inner).transferCache cache)
          fun es _ => es = [.transferCache cache] :=
        fun cache => emits_received _ _
      simp only [answer, CacheArg.resolve, final_bind_pure]
      refine logs_differ (htransfer cache) (htransfer _) (fun heq => ?_) s t
      exact hrevealed
        (congrArg (some ∘ KVCache.sourceText) (InnerCall.transferCache.inj heq))
    | result call => exact absurd rfl hrevealed
  | decode maxTokens harg =>
    cases harg with
    | @given cache text hlen =>
      simp only [answer, CacheArg.resolve, final_bind_pure]
      exact decode_differ (fun heq => hrevealed (congrArg some heq)) maxTokens
    | result call =>
      simp only [answer, revealed] at hrevealed ⊢
      cases hcache : (CacheArg.result call).resolve caches with
      | none =>
        rw [hcache] at hrevealed
        exact absurd rfl hrevealed
      | some cache =>
        rw [hcache, Option.bind_some, Option.bind_some, ne_eq, ← h.decryptText_eq_iff] at hrevealed
        simp only [final_bind_pure]
        exact decode_differ hrevealed maxTokens
  | @countTokens text text' hlen =>
    cases hcount : inner.countTokens with
    | none =>
      -- the wrapper estimates the count itself
      simp only [revealed, hcount, Option.isSome_none] at hrevealed
      exact absurd rfl hrevealed
    | some count =>
      simp only [revealed, hcount, Option.isSome_some, if_true, ne_eq, Option.some.injEq]
        at hrevealed
      simp only [answer, observed, TextCipher.wrap, final_bind_pure, TextCipher.countTokens,
        Backend.recorded, hcount, Option.map_some]
      exact logs_differ (emits_received _ _) (emits_received _ _)
        (fun heq => hrevealed (InnerCall.countTokens.inj heq)) s t

/-! ### Runs -/

/-- Sessions that the inner backend cannot tell apart. -/
structure Session.Same (s t : Session (Observed σ)) : Prop where
  world : s.world.Same t.world
  caches : s.caches = t.caches

/-- A call is noted behind those before it. -/
theorem Session.perform_grows (s : Session (Observed σ)) (call : BackendCall) :
    innerLog s.world <+: innerLog (s.perform (observed tokens inner) call).world := by
  obtain ⟨es, hlog, -⟩ := emits_answer s.caches call s.world
  exact ⟨es, hlog.symm⟩

/-- Two sessions stay the same under calls that reveal the same. -/
theorem Session.perform_same {s t : Session (Observed σ)} (h : s.Same t)
    {call call' : BackendCall} (halike : call.Alike call')
    (hrevealed : revealed tokens inner s call = revealed tokens inner t call') :
    (s.perform (observed tokens inner) call).Same (t.perform (observed tokens inner) call') := by
  obtain ⟨world, caches⟩ := s
  obtain ⟨world', _⟩ := t
  obtain ⟨hworld, rfl⟩ := h
  obtain ⟨hsame, hagree⟩ := answer_same hworld halike hrevealed
  exact ⟨hsame, by simp only [Session.perform, hagree.eq]⟩

/-- They come apart under calls that do not. -/
theorem Session.perform_differ {s t : Session (Observed σ)} (h : s.Same t)
    {call call' : BackendCall} (halike : call.Alike call')
    (hrevealed : revealed tokens inner s call ≠ revealed tokens inner t call') :
    ∃ e f, e ≠ f ∧
      innerLog (s.perform (observed tokens inner) call).world = innerLog s.world ++ [e] ∧
      innerLog (t.perform (observed tokens inner) call').world = innerLog t.world ++ [f] := by
  obtain ⟨world, caches⟩ := s
  obtain ⟨world', _⟩ := t
  obtain ⟨hworld, rfl⟩ := h
  exact answer_differ hworld halike hrevealed

/-- Two series of calls that differ only in texts of the same lengths look the same to the inner
backend if and only if none of them hands to it different texts in the clear: no two texts that are
counted by the inner backend, no two texts of given caches that are transferred, and no two
plaintexts of caches that are decoded. -/
theorem innerCalls_eq_iff (tokens : Tokens) (inner : Backend σ) (world : σ)
    (calls calls' : List BackendCall) (halike : List.Forall₂ BackendCall.Alike calls calls') :
    innerCalls tokens inner world calls = innerCalls tokens inner world calls' ↔
      ∀ k call call', calls[k]? = some call → calls'[k]? = some call' →
        revealed tokens inner (sessionAfter tokens inner world (calls.take k)) call =
          revealed tokens inner (sessionAfter tokens inner world (calls'.take k)) call' := by
  have hlog : ∀ {s t : Session (Observed σ)}, s.Same t →
      innerLog s.world = innerLog t.world :=
    fun hst => congrArg Prod.snd hst.world.inner
  exact Machine.log_run_eq_iff Session.perform_grows hlog
    (fun hst hcall hrevealed => Session.perform_same hst hcall hrevealed)
    (fun hst hcall hrevealed => Session.perform_differ hst hcall hrevealed)
    ⟨⟨rfl, rfl, rfl⟩, rfl⟩ halike

section Examples

/-- Blocks that show their number and the length of the text. -/
def Tokens.numbered : Tokens where
  block i n :=
    { keyId := "k", nonce := UInt8.ofNat i :: List.replicate 11 0, ciphertext := List.replicate n 0
      tag := List.replicate 16 0, length_nonce := rfl
      length_tag := EncryptedBlock.length_zeroTag }
  refuse _ := none
  knows := (· = "k")
  foreign _ := .error (.crypto "decryption failed (wrong key or tampered data)")

/-- An expert answers a prompt and encodes the text with its answer, and the cache is transferred.
Two texts of the same lengths are not told apart. -/
theorem innerCalls_transfer :
    innerCalls .numbered (Script.backend {}) ()
        [.generate "a" 256, .encode "a\na", .transferCache (.result 1)] =
      innerCalls .numbered (Script.backend {}) ()
        [.generate "b" 256, .encode "b\nb", .transferCache (.result 1)] := by
  have hprompt : (Str.utf8 "a").length = (Str.utf8 "b").length := by decide
  have htext : (Str.utf8 "a\na").length = (Str.utf8 "b\nb").length := by decide
  refine (innerCalls_eq_iff .numbered (Script.backend {}) () _ _
    (.cons (.generate 256 hprompt) (.cons (.encode htext)
      (.cons (.transferCache (.result 1)) .nil)))).mpr ?_
  rintro (_ | _ | _ | k) call call' hcall hcall'
  · cases hcall
    cases hcall'
    simp only [revealed]
  · cases hcall
    cases hcall'
    simp only [revealed]
  · cases hcall
    cases hcall'
    simp only [revealed]
  · cases hcall

/-- If the next expert decodes the cache, the inner backend gets the text in the clear. -/
theorem innerCalls_handoff :
    List.Forall₂ BackendCall.Alike
        [.generate "a" 256, .encode "a\na", .transferCache (.result 1), .decode (.result 2) 256]
        [.generate "b" 256, .encode "b\nb", .transferCache (.result 1), .decode (.result 2) 256] ∧
      innerCalls .numbered (Script.backend {}) ()
          [.generate "a" 256, .encode "a\na", .transferCache (.result 1),
            .decode (.result 2) 256] ≠
        innerCalls .numbered (Script.backend {}) ()
          [.generate "b" 256, .encode "b\nb", .transferCache (.result 1),
            .decode (.result 2) 256] := by
  refine ⟨.cons (.generate 256 rfl) (.cons (.encode rfl) (.cons (.transferCache (.result 1))
    (.cons (.decode 256 (.result 2)) .nil))), fun h => ?_⟩
  -- the last call hands the inner backend another text
  have hlast := congrArg List.getLast? h
  revert hlast
  decide +kernel

end Examples

end Chen
