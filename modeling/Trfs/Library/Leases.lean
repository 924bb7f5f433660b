/-
This file lends tokens to programs. A call is safe while the program holds, or has been lent, what the call needs.
-/

import Mathlib.Order.Basic
import Trfs.Library.Ensures
import Trfs.Library.Ledger
import Trfs.Library.Translation

namespace Effect

/-- Which tokens a call needs while it runs, and what a program learns from the replies. Some tokens are lent to it: it
does not hold them, but nobody takes them away while the store of the system is intact. -/
structure Leasing {Call : Type} (Reply : Call → Type) (Token Known : Type) [Preorder Known] extends
    Ledger Reply Token where
  needs : Call → Multiset Token
  intact : Known → Prop
  intact_iff : ∀ {known later}, known ≤ later → (intact known ↔ intact later)
  lent : Known → Multiset Token → Prop
  lent_mono : ∀ {known later part}, known ≤ later → lent known part → lent later part
  learn : Known → (c : Call) → Reply c → Option Known

section
variable {Call Token Known : Type} {Reply : Call → Type} [Preorder Known]

/-- The tokens that a call needs are held, or held and lent. -/
def Leasing.Covered (leasing : Leasing Reply Token Known) (held : Multiset Token) (known : Known) (c : Call) : Prop :=
  leasing.needs c ≤ held ∨ ∃ part, leasing.lent known part ∧ leasing.needs c ≤ held + part

/-- More knowledge covers more. -/
theorem Leasing.Covered.mono {leasing : Leasing Reply Token Known} {held : Multiset Token} {known later : Known} {c : Call}
    (le : known ≤ later) (covered : leasing.Covered held known c) : leasing.Covered held later c := by
  rcases covered with own | ⟨part, lent, enough⟩
  · exact .inl own
  · exact .inr ⟨part, leasing.lent_mono le lent, enough⟩

/-- What is lent can be enough by itself. -/
theorem Leasing.Covered.of_lent {leasing : Leasing Reply Token Known} {held part : Multiset Token} {known : Known}
    {c : Call} (lent : leasing.lent known part) (enough : leasing.needs c ≤ part) : leasing.Covered held known c :=
  .inr ⟨part, lent, enough.trans (Multiset.le_add_left _ _)⟩

/-- While the store is intact, a program gives away only what it holds itself. -/
def Leasing.Permits (leasing : Leasing Reply Token Known) (held : Multiset Token) (known : Known) (c : Call) : Prop :=
  leasing.Covered held known c ∧ (leasing.intact known → leasing.spends c ≤ held)

/-- A call that neither takes nor gives. What was known before stays known. -/
def Leasing.Idle (leasing : Leasing Reply Token Known) (c : Call) : Prop :=
  leasing.spends c = 0 ∧ (∀ reply, leasing.gains c reply = 0) ∧
    ∀ known reply later, leasing.learn known c reply = some later → known ≤ later

/-- An idle call that has what it needs. -/
def Leasing.Tame (leasing : Leasing Reply Token Known) (held : Multiset Token) (known : Known) (c : Call) : Prop :=
  leasing.Idle c ∧ leasing.Covered held known c

/-- A tame call is permitted. -/
theorem Leasing.Tame.permits {leasing : Leasing Reply Token Known} {held : Multiset Token} {known : Known} {c : Call}
    (tame : leasing.Tame held known c) :
    leasing.Permits held known c := by
  refine ⟨tame.2, fun _ => ?_⟩
  rw [tame.1.1]
  exact Multiset.zero_le held

end

section
variable {Call Token Known σ α β : Type} {Reply : Call → Type} [DecidableEq Token] [Preorder Known]

/-- Whatever the replies are, each call has what it needs. A reply from which nothing can be learnt does not occur. -/
def Program.Covers (leasing : Leasing Reply Token Known) (post : α → Multiset Token → Known → Prop) :
    Program Reply α → Multiset Token → Known → Prop
  | .pure value, held, known => ∀ later, known ≤ later → post value held later
  | .call c next, held, known => leasing.Permits held known c ∧ ∀ reply above later, known ≤ above →
      leasing.learn above c reply = some later →
      (next reply).Covers leasing post (held - leasing.spends c + leasing.gains c reply) later

variable {leasing : Leasing Reply Token Known} {held rest total : Multiset Token} {known later : Known}
  {post : α → Multiset Token → Known → Prop}

/-- More knowledge does no harm. -/
theorem Program.Covers.mono {program : Program Reply α} (le : known ≤ later)
    (covers : program.Covers leasing post held known) : program.Covers leasing post held later := by
  cases program with
  | pure value => exact fun last above => covers last (le.trans above)
  | call c next =>
      obtain ⟨⟨covered, spends⟩, rest⟩ := covers
      refine ⟨⟨covered.mono le, fun intact => spends ((leasing.intact_iff le).mpr intact)⟩, ?_⟩
      exact fun reply above last under => rest reply above last (le.trans under)

/-- A weaker postcondition. -/
theorem Program.Covers.weaken {weak strong : α → Multiset Token → Known → Prop}
    (weaker : ∀ value held known, strong value held known → weak value held known) {program : Program Reply α}
    (covers : program.Covers leasing strong held known) : program.Covers leasing weak held known := by
  induction program generalizing held known with
  | pure value => exact fun later le => weaker value held later (covers later le)
  | call c next ih => exact ⟨covers.1, fun reply above later le learnt => ih reply (covers.2 reply above later le learnt)⟩

/-- A sequence is covered when its second part is covered where the first one ends. -/
theorem Program.covers_bind {post : β → Multiset Token → Known → Prop} {program : Program Reply α}
    {next : α → Program Reply β} :
    (program >>= next).Covers leasing post held known ↔
      program.Covers leasing (fun value held known => (next value).Covers leasing post held known) held known := by
  induction program generalizing held known with
  | pure value => exact ⟨fun covers later le => covers.mono le, fun covers => covers known le_rfl⟩
  | call c inner ih =>
      rw [call_bind]
      simp only [Covers, ih]

/-- The rule for the two ways on after a step that can fail. -/
theorem covers_ite {condition : Prop} [Decidable condition] {leaving program : Program Reply α}
    (leaves : leaving.Covers leasing post held known) (continues : program.Covers leasing post held known) :
    (if condition then leaving else program).Covers leasing post held known := by
  split
  · exact leaves
  · exact continues

/-- The rule for a call. -/
theorem covers_perform {c : Call} {next : Reply c → Program Reply α} (covered : leasing.Covered held known c)
    (enough : held = leasing.spends c + rest)
    (continues : ∀ reply above later, known ≤ above → leasing.learn above c reply = some later →
      (next reply).Covers leasing post (rest + leasing.gains c reply) later) :
    (perform c >>= next).Covers leasing post held known := by
  have left : held - leasing.spends c = rest := by
    rw [enough, add_tsub_cancel_left]
  have within : leasing.spends c ≤ held := by
    rw [enough]
    exact Multiset.le_add_right _ _
  refine ⟨⟨covered, fun _ => within⟩, fun reply above later le learnt => ?_⟩
  rw [left]
  exact continues reply above later le learnt

/-- The rule for a part whose calls are tame. -/
theorem Program.Calls.covers {program : Program Reply β} {next : β → Program Reply α}
    (calls : program.Calls (leasing.Tame held known)) (continues : ∀ value, (next value).Covers leasing post held known) :
    (program >>= next).Covers leasing post held known := by
  induction program with
  | pure value => exact continues value
  | call c inner ih =>
      obtain ⟨⟨spends, gains, learns⟩, covered⟩ := calls.1
      have enough : held = leasing.spends c + held := by rw [spends, zero_add]
      apply covers_perform covered enough
      intro reply above later le learnt
      rw [gains, add_zero]
      exact (ih reply (calls.2 reply)).mono (le.trans (learns above reply later learnt))

/-- A tame program at the end is covered. -/
theorem Program.Calls.covers_last {program : Program Reply α} (calls : program.Calls (leasing.Tame held known))
    (ends : ∀ value later, known ≤ later → post value held later) : program.Covers leasing post held known := by
  rw [← program.bind_pure]
  exact calls.covers ends

/-- A translation has what it needs if each of its parts has, and if the parts keep what they rely on in the local variables. -/
theorem Program.translate_covers {C S : Type} {Asked : C → Type} {step : (c : C) → S → Program Reply (Asked c × S)}
    (valid : S → Known → Prop) (mono : ∀ {locals known later}, known ≤ later → valid locals known → valid locals later)
    (steps : ∀ c locals known, valid locals known →
      (step c locals).Covers leasing (fun done left known => left = held ∧ valid done.2 known) held known)
    (program : Program Asked α) {locals : S} (start : valid locals known) :
    (program.translate step locals).Covers leasing (fun done left known => left = held ∧ valid done.2 known) held
      known := by
  induction program generalizing locals known with
  | pure value => exact fun later le => ⟨rfl, mono le start⟩
  | call c next ih =>
      unfold translate
      rw [covers_bind]
      apply (steps c locals known start).weaken
      rintro done _ known ⟨rfl, kept⟩
      exact ih done.1 kept

/-- What a program learns is true of the state. While the store is intact it holds all that is lent and gains nothing. -/
structure Leasing.Sound (leasing : Leasing Reply Token Known) (handler : Handler Reply σ) (store : σ → Multiset Token)
    (truly : σ → Known → Prop) : Prop where
  learns : ∀ {c state reply after known}, truly state known → handler c state = some (reply, after) →
    ∃ later, leasing.learn known c reply = some later ∧ truly after later ∧
      (leasing.intact later → leasing.intact known ∧ store after ≤ store state)
  lent : ∀ {state known part}, truly state known → leasing.lent known part →
    leasing.intact known ∧ part ≤ store state

/-- An account that has ended stays so. -/
theorem Ledger.account_none {ledger : Ledger Reply Token} (events : List (Event Reply)) :
    ledger.account.after none events = none := by
  induction events with
  | nil => rfl
  | cons event events ih => exact ih

/-- A call that fits into the account leaves the rest and what it gives. -/
theorem Ledger.account_fits {ledger : Ledger Reply Token} {c : Call} {reply : Reply c} {events : List (Event Reply)}
    {last : Multiset Token} (account : ledger.account.after (some total) (⟨c, reply⟩ :: events) = some last) :
    ledger.spends c ≤ total ∧
      ledger.account.after (some (total - ledger.spends c + ledger.gains c reply)) events = some last := by
  rw [Monitor.after_cons] at account
  have counted : ledger.account.next (some total) c reply =
      if ledger.spends c ≤ total then some (total - ledger.spends c + ledger.gains c reply) else none := rfl
  by_cases fits : ledger.spends c ≤ total
  · rw [counted, if_pos fits] at account
    exact ⟨fits, account⟩
  · rw [counted, if_neg fits] at account
    cases (account_none events).symm.trans account

/-- An account that reaches the end has not ended before. -/
theorem Ledger.account_front {ledger : Ledger Reply Token} {front back : List (Event Reply)} {last : Multiset Token}
    (account : ledger.account.after (some total) (front ++ back) = some last) :
    ∃ now, ledger.account.after (some total) front = some now := by
  rw [Monitor.after_append] at account
  cases reached : ledger.account.after (some total) front with
  | none =>
      rw [reached, account_none] at account
      cases account
  | some now => exact ⟨now, rfl⟩

/-- In an execution that keeps its account, each call finds what it needs among the tokens that are held. -/
theorem Program.Covers.exec {handler : Handler Reply σ} {store : σ → Multiset Token} {truly : σ → Known → Prop}
    (sound : leasing.Sound handler store truly) {program : Program Reply α} {state : σ} {last : Multiset Token}
    {done : Execution Reply σ α} (covers : program.Covers leasing post held known)
    (ran : program.exec handler state = some done) (truth : truly state known) (within : held ≤ total)
    (stored : leasing.intact known → held + store state ≤ total)
    (account : leasing.account.after (some total) done.events = some last) {front back : List (Event Reply)}
    {event : Event Reply} (split : done.events = front ++ event :: back) :
    ∃ now, leasing.account.after (some total) front = some now ∧ leasing.needs event.call ≤ now := by
  induction program generalizing held known total state done front with
  | pure value =>
      obtain rfl := Option.some.inj ran
      exact absurd split (by simp)
  | call c next ih =>
      obtain ⟨reply, after, rest, answered, continued, _, _, events⟩ := exec_call_eq_some ran
      obtain ⟨⟨covered, spends⟩, continues⟩ := covers
      obtain ⟨found, learnt, later, keeps⟩ := sound.learns truth answered
      rw [events] at account split
      obtain ⟨fits, account⟩ := Ledger.account_fits account
      cases front with
      | nil =>
          obtain ⟨rfl, _⟩ := List.cons.inj split
          refine ⟨total, rfl, ?_⟩
          rcases covered with own | ⟨part, lent, enough⟩
          · exact own.trans within
          · obtain ⟨intact, part_le⟩ := sound.lent truth lent
            exact (enough.trans (add_le_add_right part_le _)).trans (stored intact)
      | cons first front =>
          obtain ⟨rfl, behind⟩ := List.cons.inj split
          have held_le : held - leasing.spends c + leasing.gains c reply ≤
              total - leasing.spends c + leasing.gains c reply :=
            add_le_add_left (tsub_le_tsub_right within _) _
          have stored_le : leasing.intact found →
              held - leasing.spends c + leasing.gains c reply + store after ≤
                total - leasing.spends c + leasing.gains c reply := by
            intro intact
            obtain ⟨before, less⟩ := keeps intact
            calc held - leasing.spends c + leasing.gains c reply + store after
                ≤ held - leasing.spends c + leasing.gains c reply + store state := add_le_add_right less _
              _ = held - leasing.spends c + store state + leasing.gains c reply := add_right_comm ..
              _ = held + store state - leasing.spends c + leasing.gains c reply := by
                rw [tsub_add_eq_add_tsub (spends before)]
              _ ≤ total - leasing.spends c + leasing.gains c reply :=
                add_le_add_left (tsub_le_tsub_right (stored before) _) _
          obtain ⟨now, reached, enough⟩ := ih reply (continues reply known found le_rfl learnt) continued later held_le
            stored_le account behind
          refine ⟨now, ?_, enough⟩
          rw [Monitor.after_cons]
          have counted : leasing.account.next (some total) c reply =
              some (total - leasing.spends c + leasing.gains c reply) := if_pos fits
          rw [counted]
          exact reached

/-- The account of some of the tokens. -/
theorem Ledger.account_filter {large small : Ledger Reply Token} {followed : Token → Prop} [DecidablePred followed]
    (gains : ∀ c reply, small.gains c reply = (large.gains c reply).filter followed)
    (spends : ∀ c, small.spends c = (large.spends c).filter followed) {events : List (Event Reply)}
    {last : Multiset Token} (account : large.account.after (some total) events = some last) :
    small.account.after (some (total.filter followed)) events = some (last.filter followed) := by
  induction events generalizing total with
  | nil =>
      obtain rfl := Option.some.inj account
      rfl
  | cons event events ih =>
      obtain ⟨fits, account⟩ := account_fits account
      have counted : small.account.next (some (total.filter followed)) event.call event.reply =
          some (total.filter followed - small.spends event.call + small.gains event.call event.reply) := by
        apply if_pos
        rw [spends]
        exact Multiset.filter_le_filter _ fits
      have same : total.filter followed - small.spends event.call + small.gains event.call event.reply =
          (total - large.spends event.call + large.gains event.call event.reply).filter followed := by
        rw [spends, gains, Multiset.filter_add, Multiset.filter_sub]
      rw [Monitor.after_cons, counted, same]
      exact ih account

/-- The account of a ledger that follows more tokens holds what a call needs, too. -/
theorem Program.Covers.exec_within {large : Ledger Reply Token} {followed : Token → Prop} [DecidablePred followed]
    (gains : ∀ c reply, leasing.gains c reply = (large.gains c reply).filter followed)
    (spends : ∀ c, leasing.spends c = (large.spends c).filter followed) {handler : Handler Reply σ}
    {store : σ → Multiset Token} {truly : σ → Known → Prop} (sound : leasing.Sound handler store truly)
    {program : Program Reply α} {state : σ} {last : Multiset Token} {done : Execution Reply σ α}
    (covers : program.Covers leasing post 0 known) (ran : program.exec handler state = some done)
    (truth : truly state known) (stored : store state ≤ total.filter followed)
    (account : large.account.after (some total) done.events = some last) {front back : List (Event Reply)}
    {event : Event Reply} (split : done.events = front ++ event :: back) :
    ∃ now, large.account.after (some total) front = some now ∧ leasing.needs event.call ≤ now := by
  have begins : large.account.after (some total) (front ++ event :: back) = some last := by
    rw [← split]
    exact account
  obtain ⟨now, reached⟩ := Ledger.account_front begins
  have filtered : leasing.account.after (some (total.filter followed)) done.events = some (last.filter followed) :=
    Ledger.account_filter gains spends account
  have stored_all : leasing.intact known → 0 + store state ≤ total.filter followed := by
    intro _
    rw [zero_add]
    exact stored
  obtain ⟨found, same, enough⟩ := covers.exec sound ran truth (Multiset.zero_le _) stored_all filtered split
  have there : leasing.account.after (some (total.filter followed)) front = some (now.filter followed) :=
    Ledger.account_filter gains spends reached
  obtain rfl := Option.some.inj (same.symm.trans there)
  exact ⟨now, reached, enough.trans (Multiset.filter_le _ _)⟩

end

end Effect
