import Mathlib.Data.Bool.AllAny
import TpmAttest.QuoteBinding
import TpmAttest.RawStrings
import TpmAttest.ReachableStates

/-! # When a nonce expires

`_consume_nonce` compares expiries as texts, in SQL, and once more as times.  The order
of the texts is that of the instants (`bytes_lt_iff`): a day of the calendar has one
ordinal, and later fields carry into earlier ones.  So the purge removes the expired
nonces and no others, and what is fetched after it is not expired.
-/
namespace TpmAttest

open Python JsonGrammar Transactional Program

/-! ## Instants -/

namespace DateTime

/-- The days of the first months of a year. -/
def monthDays (year months : Nat) : Nat := ((List.range' 1 months).map (daysInMonth year)).sum

theorem monthDays_succ (year months : Nat) :
    monthDays year (months + 1) = monthDays year months + daysInMonth year (months + 1) := by
  rw [monthDays, List.range'_1_concat, List.map_append, List.sum_append, Nat.add_comm 1 months]
  rfl

theorem monthDays_mono (year : Nat) {m n : Nat} (h : m ≤ n) :
    monthDays year m ≤ monthDays year n := by
  induction h with
  | refl => exact Nat.le_refl _
  | step _ ih =>
    rw [monthDays_succ]
    omega

/-- A year has at most one day more than 365, and that only every four years. -/
theorem monthDays_year (year : Nat) : monthDays year 12 =
    if year % 4 = 0 ∧ (year % 100 ≠ 0 ∨ year % 400 = 0) then 366 else 365 := by
  by_cases h : year % 4 = 0 ∧ (year % 100 ≠ 0 ∨ year % 400 = 0)
  · simp [monthDays, List.range', daysInMonth, h]
  · simp [monthDays, List.range', daysInMonth, h]

/-- The days of the first years. -/
def yearDays (years : Nat) : Nat := years * 365 + years / 4 - years / 100 + years / 400

theorem yearDays_succ (years : Nat) :
    yearDays (years + 1) = yearDays years + monthDays (years + 1) 12 := by
  -- in steps of 4, of 25 times 4 and of 4 times 100 years
  have h100 : ∀ n : Nat, n / 100 = n / 4 / 25 := fun n => by rw [Nat.div_div_eq_div_mul]
  have h400 : ∀ n : Nat, n / 400 = n / 4 / 25 / 4 := fun n => by
    rw [Nat.div_div_eq_div_mul, Nat.div_div_eq_div_mul]
  rw [monthDays_year, yearDays, yearDays, h100, h100, h400, h400]
  split
  · omega
  · omega

theorem yearDays_mono {m n : Nat} (h : m ≤ n) : yearDays m ≤ yearDays n := by
  induction h with
  | refl => exact Nat.le_refl _
  | step _ ih =>
    rw [yearDays_succ]
    omega

/-- The day within its year. -/
theorem dayOfYear_le (d : DateTime) :
    monthDays d.year (d.month - 1) + d.day ≤ monthDays d.year 12 := by
  have hmonth := d.month_valid
  have hday := d.day_valid
  have hyear : monthDays d.year d.month ≤ monthDays d.year 12 := monthDays_mono _ hmonth.2
  have hsucc := monthDays_succ d.year (d.month - 1)
  rw [Nat.sub_add_cancel hmonth.1] at hsucc
  omega

/-- An earlier date has a smaller ordinal. -/
theorem toordinal_lt {a b : DateTime} (h : a.year < b.year ∨ a.year = b.year ∧
    (a.month < b.month ∨ a.month = b.month ∧ a.day < b.day)) : a.toordinal < b.toordinal := by
  have hbday := b.day_valid
  change yearDays (a.year - 1) + monthDays a.year (a.month - 1) + a.day <
    yearDays (b.year - 1) + monthDays b.year (b.month - 1) + b.day
  rcases h with hyear | ⟨hyear, hmonth | ⟨hmonth, hday⟩⟩
  · have ha := a.dayOfYear_le
    have hsucc := yearDays_succ (a.year - 1)
    have hle : yearDays a.year ≤ yearDays (b.year - 1) := yearDays_mono (by omega)
    rw [Nat.sub_add_cancel a.year_valid.1] at hsucc
    omega
  · have hsucc := monthDays_succ a.year (a.month - 1)
    have hle : monthDays a.year a.month ≤ monthDays a.year (b.month - 1) :=
      monthDays_mono _ (by omega)
    have haday := a.day_valid
    rw [Nat.sub_add_cancel a.month_valid.1] at hsucc
    rw [← hyear]
    omega
  · rw [hyear, hmonth]
    omega

theorem lt_iff {a b : DateTime} : a < b ↔ a.fields < b.fields := Iff.rfl

/-- **Field by field is by the instant.** -/
theorem lt_iff_microseconds (a b : DateTime) : a < b ↔ a.microseconds < b.microseconds := by
  have hab := @toordinal_lt a b
  have hba := @toordinal_lt b a
  have hsame : a.year = b.year → a.month = b.month → a.day = b.day →
      a.toordinal = b.toordinal := by
    intro hyear hmonth hday
    rw [toordinal, toordinal, hyear, hmonth, hday]
  have ha := a.time_valid
  have hb := b.time_valid
  rw [lt_iff, microseconds, microseconds]
  simp only [fields, List.cons_lt_cons_iff, List.not_lt_nil, and_false, or_false]
  omega

theorem isoformat_ascii (d : DateTime) : ∀ c ∈ d.isoformat.toList, c.toNat < 128 := by
  have hdigits : ∀ k n : Nat, ∀ c ∈ digits k n, c.toNat < 128 := by
    intro k
    induction k with
    | zero => exact fun n c hc => absurd hc List.not_mem_nil
    | succ k ih =>
      intro n c hc
      rcases List.mem_append.mp hc with hc | hc
      · exact ih _ c hc
      · have hdigit : ∀ d < 10, (Char.ofNat (48 + d)).toNat < 128 := by decide
        rw [List.mem_singleton.mp hc]
        exact hdigit _ (Nat.mod_lt n (by omega))
  rw [toList_isoformat]
  by_cases h0 : d.microsecond = 0
  · rw [if_pos h0]
    simp only [List.forall_mem_append, List.forall_mem_cons, List.nil_append]
    exact ⟨hdigits _ _, by decide, hdigits _ _, by decide, hdigits _ _, by decide, hdigits _ _,
      by decide, hdigits _ _, by decide, hdigits _ _, List.all_iff_forall_prop.mp (by decide)⟩
  · rw [if_neg h0]
    simp only [List.forall_mem_append, List.forall_mem_cons]
    exact ⟨hdigits _ _, by decide, hdigits _ _, by decide, hdigits _ _, by decide, hdigits _ _,
      by decide, hdigits _ _, by decide, hdigits _ _, ⟨by decide, hdigits _ _⟩,
      List.all_iff_forall_prop.mp (by decide)⟩

/-- ASCII texts are ordered as their bytes are. -/
theorem map_byte_lt_iff {s t : List Char} (hs : ∀ c ∈ s, c.toNat < 128)
    (ht : ∀ c ∈ t, c.toNat < 128) : s.map byte < t.map byte ↔ s < t := by
  induction s generalizing t with
  | nil =>
    cases t with
    | nil => exact iff_of_false (List.not_lt_nil _) (List.not_lt_nil _)
    | cons b t => exact iff_of_true (List.nil_lt_cons _ _) (List.nil_lt_cons _ _)
  | cons a s ih =>
    cases t with
    | nil => exact iff_of_false (List.not_lt_nil _) (List.not_lt_nil _)
    | cons b t =>
      have ha := toNat_byte (hs a List.mem_cons_self)
      have hb := toNat_byte (ht b List.mem_cons_self)
      have hlt : byte a < byte b ↔ a < b := by
        rw [UInt8.lt_iff_toNat_lt, ha, hb]
        exact Iff.rfl
      have heq : byte a = byte b ↔ a = b := by
        rw [← UInt8.toNat_inj, ha, hb, Char.toNat_inj]
      have htail := ih (fun c hc => hs c (List.mem_cons_of_mem _ hc))
        fun c hc => ht c (List.mem_cons_of_mem _ hc)
      rw [List.map_cons, List.map_cons, List.cons_lt_cons_iff, List.cons_lt_cons_iff, hlt, heq,
        htail]

/-- **Byte by byte is by the instant.** -/
theorem bytes_lt_iff (a b : DateTime) :
    encode a.isoformat < encode b.isoformat ↔ a.microseconds < b.microseconds := by
  have hbytes : ∀ d : DateTime, encode d.isoformat = d.isoformat.toList.map byte := by
    intro d
    rw [encode_toList, utf8, List.map_eq_flatMap]
    exact List.flatMap_congr fun c hc => utf8EncodeChar_ascii (d.isoformat_ascii c hc)
  rw [← lt_iff_microseconds, ← isoformat_lt_iff, String.lt_iff_toList_lt, hbytes, hbytes]
  exact map_byte_lt_iff a.isoformat_ascii b.isoformat_ascii

end DateTime

/-! ## The table -/

/-- The nonces in the table are these, with their expiries. -/
def StoresNonces (db : Database) (expiries : String → Option DateTime) : Prop :=
  db.activeNonces = fun nonce => (expiries nonce).map DateTime.isoformat

/-- The nonces whose expiry is not before now. -/
def unexpired (expiries : String → Option DateTime) (now : DateTime) : String → Option DateTime :=
  fun nonce => (expiries nonce).filter fun expiry => ¬ expiry.microseconds < now.microseconds

/-- Calls of `_issue_nonce`, one after another. -/
def issueAll (issues : List Env) (db : Database) : Database :=
  issues.foldl (fun db env => ((issueNonce env).run exec db).2) db

theorem StoresNonces.update {db : Database} {expiries : String → Option DateTime}
    (h : StoresNonces db expiries) (nonce : String) (expiry : Option DateTime) :
    StoresNonces
      { db with
        activeNonces := Function.update db.activeNonces nonce (expiry.map DateTime.isoformat) }
      (Function.update expiries nonce expiry) := by
  rw [StoresNonces, h]
  exact (Function.comp_update (Option.map DateTime.isoformat) expiries nonce expiry).symm

/-- One call stores one nonce, or leaves the table as it is. -/
theorem stores_issueNonce {db : Database} {expiries : String → Option DateTime}
    (h : StoresNonces db expiries) (env : Env) :
    StoresNonces ((issueNonce env).run exec db).2 expiries ∨
      ∃ expiry, env.now.addSeconds challengeLifetimeSeconds = .ok expiry ∧
        StoresNonces ((issueNonce env).run exec db).2
          (Function.update expiries env.token (some expiry)) := by
  unfold issueNonce
  cases env.now.addSeconds challengeLifetimeSeconds with
  | error e => exact Or.inl h
  | ok expiry =>
    rw [ofExcept_ok, bind_eq, ret_bind, bind_eq, run_bind, run_perform]
    cases hdup : db.activeNonces env.token with
    | some t =>
      refine Or.inl ?_
      simp only [commit, exec, hdup]
      exact h
    | none =>
      refine Or.inr ⟨expiry, rfl, ?_⟩
      rw [commit_insertNonce db _ hdup]
      exact h.update env.token (some expiry)

/-- The table after some calls. -/
theorem stores_issueAll (issues : List Env) {db : Database} {expiries : String → Option DateTime}
    (h : StoresNonces db expiries) : ∃ expiries', StoresNonces (issueAll issues db) expiries' ∧
      ∀ nonce expiry, expiries' nonce = some expiry → expiries nonce = some expiry ∨
        ∃ env ∈ issues, env.token = nonce ∧
          env.now.addSeconds challengeLifetimeSeconds = .ok expiry := by
  induction issues generalizing db expiries with
  | nil => exact ⟨expiries, h, fun _ _ hold => Or.inl hold⟩
  | cons env issues ih =>
    rcases stores_issueNonce h env with hstep | ⟨expiry₀, hadd, hstep⟩
    · obtain ⟨expiries', hstores, hfrom⟩ := ih hstep
      refine ⟨expiries', hstores, fun nonce expiry hsome => ?_⟩
      rcases hfrom nonce expiry hsome with hold | ⟨env', hmem, hissued⟩
      · exact Or.inl hold
      · exact Or.inr ⟨env', List.mem_cons_of_mem _ hmem, hissued⟩
    · obtain ⟨expiries', hstores, hfrom⟩ := ih hstep
      refine ⟨expiries', hstores, fun nonce expiry hsome => ?_⟩
      rcases hfrom nonce expiry hsome with hold | ⟨env', hmem, hissued⟩
      · by_cases htoken : nonce = env.token
        · subst htoken
          rw [Function.update_self, Option.some_inj] at hold
          exact Or.inr ⟨env, List.mem_cons_self, rfl, hold ▸ hadd⟩
        · rw [Function.update_of_ne htoken] at hold
          exact Or.inl hold
      · exact Or.inr ⟨env', List.mem_cons_of_mem _ hmem, hissued⟩

/-- So it is with every database that the server can reach. -/
theorem stores_of_reachable {platform : Platform} {db : Database} (h : Reachable platform db) :
    ∃ expiries, StoresNonces db expiries := by
  have hrow : ∀ nonce, ∃ expiry : Option DateTime,
      db.activeNonces nonce = expiry.map DateTime.isoformat := by
    intro nonce
    cases hnonce : db.activeNonces nonce with
    | none => exact ⟨none, rfl⟩
    | some t =>
      obtain ⟨expiry, rfl⟩ := (valid_of_reachable h).expiries nonce t hnonce
      exact ⟨some expiry, rfl⟩
  choose expiries hexpiries using hrow
  exact ⟨expiries, funext hexpiries⟩

/-! ## The purge -/

/-- The textual purge leaves the nonces that have not expired. -/
theorem purgeNonces_eq {db : Database} {expiries : String → Option DateTime}
    (h : StoresNonces db expiries) (now : DateTime) : purgeNonces db.activeNonces now.isoformat =
      fun nonce => (unexpired expiries now nonce).map DateTime.isoformat := by
  funext nonce
  rw [purgeNonces, congrFun h nonce, unexpired]
  cases expiries nonce with
  | none => rfl
  | some expiry =>
    have htext : expiry.isoformat < now.isoformat ↔ expiry.microseconds < now.microseconds := by
      rw [DateTime.isoformat_lt_iff, DateTime.lt_iff_microseconds]
    rw [Option.map_some, Option.filter_some, Option.filter_some]
    by_cases hexpired : expiry.microseconds < now.microseconds
    · rw [if_neg (mt of_decide_eq_true (not_not_intro (htext.mpr hexpired))),
        if_neg (mt of_decide_eq_true (not_not_intro hexpired))]
      rfl
    · rw [if_pos (decide_eq_true (mt htext.mp hexpired)), if_pos (decide_eq_true hexpired)]
      rfl

/-- What is fetched is not expired. -/
theorem nonceVerdict_fetched (expiries : String → Option DateTime) (now : DateTime)
    (nonce : String) : nonceVerdict now ((unexpired expiries now nonce).map DateTime.isoformat) =
      .ok (if (unexpired expiries now nonce).isSome then none else some .nonceNotRecognised) := by
  cases hlive : unexpired expiries now nonce with
  | none => rfl
  | some expiry =>
    have hfresh : ¬ expiry < now := by
      rw [DateTime.lt_iff_microseconds]
      simpa using (Option.filter_eq_some_iff.mp hlive).2
    rw [Option.map_some, nonceVerdict_isoformat, if_neg hfresh]
    rfl

/-- **Expiry is exact.**  Whatever nonces `_issue_nonce` has stored, and whatever
nonces there are in a reachable state: byte by byte an expiry is before now exactly if
its instant is; the purge removes exactly the nonces whose expiry is before now; a call
removes these and the submitted one, and changes nothing else; and it never says that
the nonce has expired. -/
theorem consumeNonce_exact :
    (∀ (issues : List Env) (db : Database), (∀ nonce, db.activeNonces nonce = none) →
      ∃ expiries, StoresNonces (issueAll issues db) expiries ∧
        ∀ nonce expiry, expiries nonce = some expiry → ∃ env ∈ issues, env.token = nonce ∧
          env.now.addSeconds challengeLifetimeSeconds = .ok expiry) ∧
    (∀ (platform : Platform) (db : Database), Reachable platform db →
      ∃ expiries, StoresNonces db expiries) ∧
    ∀ (db : Database) (expiries : String → Option DateTime), StoresNonces db expiries →
      ∀ (nonce : String) (now : DateTime),
        (∀ expiry : DateTime, encode expiry.isoformat < encode now.isoformat ↔
          expiry.microseconds < now.microseconds) ∧
        (∀ other, purgeNonces db.activeNonces now.isoformat other = none ↔
          ∀ expiry, expiries other = some expiry → expiry.microseconds < now.microseconds) ∧
        ((consumeNonce nonce now).run exec db).2 = { db with
          activeNonces := fun other =>
            if other = nonce then none
            else (unexpired expiries now other).map DateTime.isoformat } ∧
        ((consumeNonce nonce now).run exec db).1 =
          .ok (if (unexpired expiries now nonce).isSome then none else some .nonceNotRecognised) ∧
        ∀ ago, ((consumeNonce nonce now).run exec db).1 ≠ .ok (some (.nonceExpired ago)) := by
  refine ⟨?_, fun platform db h => stores_of_reachable h, ?_⟩
  · intro issues db hdb
    have hempty : StoresNonces db fun _ => none := funext hdb
    obtain ⟨expiries, hstores, hfrom⟩ := stores_issueAll issues hempty
    refine ⟨expiries, hstores, fun nonce expiry hsome => ?_⟩
    rcases hfrom nonce expiry hsome with hold | hissued
    · cases hold
    · exact hissued
  · intro db expiries h nonce now
    have hverdict : ((consumeNonce nonce now).run exec db).1 =
        .ok (if (unexpired expiries now nonce).isSome then none else some .nonceNotRecognised) := by
      rw [run_consumeNonce, purgeNonces_eq h, nonceVerdict_fetched]
    refine ⟨fun expiry => DateTime.bytes_lt_iff expiry now, fun other => ?_, ?_, hverdict, ?_⟩
    · rw [purgeNonces_eq h, Option.map_eq_none_iff, unexpired]
      cases expiries other with
      | none => simp
      | some expiry => simp
    · have hupdate : Function.update (fun other => (unexpired expiries now other).map
          DateTime.isoformat) nonce none = fun other =>
            if other = nonce then none else (unexpired expiries now other).map DateTime.isoformat :=
        funext fun other => Function.update_apply _ _ _ _
      rw [run_consumeNonce, commit_consumeNonce, purgeNonces_eq h, hupdate]
    · intro ago
      rw [hverdict]
      split <;> simp

/-- A nonce in its last instant, and one that expired a second before. -/
def boundaryExpiries : String → Option DateTime
  | "last" => some noon
  | "gone" => some { noon with
      hour := 11
      minute := 59
      second := 59
      time_valid := by decide }
  | _ => none

def boundaryDatabase : Database := { Database.empty with
  activeNonces := fun nonce => (boundaryExpiries nonce).map DateTime.isoformat }

theorem consumeNonce_exact_boundary :
    ((consumeNonce "other" noon).run exec boundaryDatabase).2 = { boundaryDatabase with
      activeNonces := fun other =>
        if other = "other" then none
        else (unexpired boundaryExpiries noon other).map DateTime.isoformat } :=
  (consumeNonce_exact.2.2 boundaryDatabase boundaryExpiries rfl "other" noon).2.2.1

end TpmAttest
