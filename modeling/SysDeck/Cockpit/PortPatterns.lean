import SysDeck.Cockpit.PortSearch

/-! The expressions of the nine services: each of them keeps apart from a port that is set, and all
but one match in one way at a place. -/

namespace SysDeck.Cockpit.ServicePorts

open Packages (isSpace)
open PythonInt (isDigit)
open Matcher (literal one many many1 maybe Avoids put avoids_one avoids_many avoids_many1 avoids_maybe
  avoids_literal closes_one)

/-! ### Prefixes without digits -/

theorem avoids_blanks : blanks.Avoids (isDigit ·) :=
  avoids_many fun _ space digit => by rw [isDigit_of_isSpace space] at digit; cases digit

theorem avoids_equals : (one (· = '=') : Matcher Char).Avoids (isDigit ·) := by
  apply avoids_one
  intro c same digit
  rw [decide_eq_true_eq] at same
  subst same
  exact absurd (marker_of_isDigit digit) (by decide)

theorem avoids_word {text : String} (marks : text.toList.all marker) : (word text).Avoids (isDigit ·) := by
  apply avoids_literal
  intro c member digit
  have mark := List.all_eq_true.mp marks c member
  rw [marker_of_isDigit digit] at mark
  cases mark

/-- No digit has another case. -/
theorem toLower_of_isDigit {c : Char} (digit : isDigit c) : c.toLower = c := by
  have none := marker_of_isDigit digit
  simp only [marker, Bool.or_eq_false_iff] at none
  have alpha : c.isAlpha = false := none.1.1.1.1.1.1.1.2
  refine dif_neg fun upper => ?_
  have letter : c.isAlpha = true :=
    (Bool.or_eq_true _ _).mpr (.inl (decide_eq_true upper))
  rw [alpha] at letter
  cases letter

theorem avoids_folded {text : String} (marks : text.toList.all marker) :
    (literal Char.toLower text.toList).Avoids (isDigit ·) := by
  apply avoids_literal
  intro c member digit
  rw [toLower_of_isDigit digit] at member
  have mark := List.all_eq_true.mp marks c member
  rw [marker_of_isDigit digit] at mark
  cases mark

theorem avoids_assignment {name : Matcher Char} (avoids : name.Avoids (isDigit ·)) :
    (assignment name).Avoids (isDigit ·) :=
  avoids_blanks.seq (avoids.seq (avoids_blanks.seq (avoids_equals.seq avoids_blanks)))

theorem avoids_listenPort : listenPort.Avoids (isDigit ·) :=
  (avoids_word rfl).seq (avoids_blanks.seq (avoids_equals.seq avoids_blanks))

/-- The services whose prefix has no digits. -/
def Service.plain : Service → Bool
  | .caddy | .varnish | .ollama => false
  | _ => true

theorem avoids_plain {service : Service} (plain : service.plain) :
    service.pattern.pre.Avoids (isDigit ·) := by
  cases service with
  | ssh => exact avoids_blanks.seq ((avoids_word rfl).seq
      (avoids_many1 fun _ space digit => by rw [isDigit_of_isSpace space] at digit; cases digit))
  | cockpit => exact avoids_assignment (avoids_word rfl)
  | mariadb => exact avoids_assignment (avoids_folded rfl)
  | openwebui => exact avoids_assignment (avoids_word rfl)
  | hermes => exact avoids_blanks.seq ((avoids_word rfl).seq avoids_blanks)
  | odysseus => exact avoids_assignment (avoids_word rfl)
  | caddy => cases plain
  | varnish => cases plain
  | ollama => cases plain

/-! ### Ollama -/

theorem avoids_colon_of {p : Char → Bool} (other : p ':' = false) : ∀ c, p c → ¬c = ':' := by
  rintro c holds rfl
  rw [other] at holds
  cases holds

theorem closes_hostColon : hostColon.Closes ':' := by
  have host : (many hostChar).Avoids (· = ':') := avoids_many (avoids_colon_of rfl)
  exact host.seq_closes (closes_one fun _ same => decide_eq_true_eq.mp same)

theorem closes_ollama : Service.ollama.pattern.pre.Closes ':' := by
  have host : (word "OLLAMA_HOST").Avoids (· = ':') := by
    apply avoids_literal
    rintro c member rfl
    exact absurd member (by decide)
  have blank : blanks.Avoids (· = ':') := avoids_many (avoids_colon_of rfl)
  have equals : (one (· = '=') : Matcher Char).Avoids (· = ':') := avoids_one (avoids_colon_of rfl)
  have quote : (maybe fun c => c = '"' || c = '\'').Avoids (· = ':') := avoids_maybe (avoids_colon_of rfl)
  exact host.seq_closes (blank.seq_closes (equals.seq_closes (blank.seq_closes
    (quote.seq_closes closes_hostColon))))

/-! ### Caddy -/

theorem caddy_lang {pre : List Char} (lang : Service.caddy.pattern.pre.Lang pre) :
    ∃ front, pre = front ++ [':'] ∧ '\n' ∉ pre := by
  obtain ⟨front, back, rfl, all, c, rfl, colon⟩ := lang
  rw [decide_eq_true_eq] at colon
  subst colon
  refine ⟨front, rfl, ?_⟩
  intro member
  cases List.mem_append.mp member with
  | inl member => exact absurd (all _ member) (by decide)
  | inr member => exact absurd (List.mem_singleton.mp member) (by decide)

/-- A prefix of the line does not go into a run without colons that the line ends with. -/
theorem caddy_stops {front more later run rest : List Char}
    (lang : Service.caddy.pattern.pre.Lang (front ++ more)) (split : run ++ rest = more ++ later)
    (none : ':' ∉ run) (ends : EndsLine rest) : more = [] := by
  obtain ⟨body, whole, flat⟩ := caddy_lang lang
  by_contra nonempty
  have colon : ':' ∈ more := by
    have final := congrArg List.getLast? whole
    rw [List.getLast?_append_of_ne_nil _ nonempty, List.getLast?_concat] at final
    exact List.mem_of_getLast? final
  rcases List.append_eq_append_iff.mp split with ⟨extra, rfl, tail⟩ | ⟨under, rfl, -⟩
  · cases extra with
    | nil => exact none (by simpa using colon)
    | cons c extra =>
      obtain rfl := ends c (by rw [tail]; rfl)
      exact flat (by simp)
  · exact none (List.mem_append_left _ colon)

theorem caddy_longer {text more : List Char} {one other : Found}
    (first : Reads Service.caddy.pattern text one) (second : Reads Service.caddy.pattern text other)
    (longer : other.pre = one.pre ++ more) : more = [] := by
  have split := first.split.symm.trans second.split
  rw [longer, List.append_assoc, List.append_cancel_left_eq, ← List.append_assoc] at split
  refine caddy_stops (longer ▸ second.pre) split ?_ (close_endsLine first.close rfl)
  intro member
  cases List.mem_append.mp member with
  | inl member => exact absurd (marker_of_isDigit (first.digits _ member)) (by decide)
  | inr member =>
    have blank := (ending_eq_some (show ending _ = _ from first.close)).2.1 _ member
    exact absurd blank (by decide)

theorem single_caddy : Service.caddy.pattern.Single := by
  intro text one other first second
  have split := first.split.symm.trans second.split
  rcases List.append_eq_append_iff.mp split with ⟨more, longer, -⟩ | ⟨more, longer, -⟩
  · rw [longer, caddy_longer first second longer, List.append_nil]
  · rw [longer, caddy_longer second first longer, List.append_nil]

theorem apart_caddy : Service.caddy.pattern.Apart := by
  intro skipped pre more later port rest _ _ lang split ends
  refine caddy_stops lang split ?_ (ends rfl)
  intro member
  exact absurd (marker_of_isDigit (isDigit_of_mem_decimal _ member)) (by decide)

theorem Service.single {service : Service} (other : service ≠ .varnish) : service.pattern.Single := by
  by_cases plain : service.plain
  · exact single_of_avoids (avoids_plain plain)
  · cases service with
    | caddy => exact single_caddy
    | ollama => exact single_of_closes closes_ollama
    | varnish => exact absurd rfl other
    | _ => exact absurd rfl plain

/-! ### Varnish -/

/-- The letters that begin an assignment of a port, and do not come later in an option. -/
def begins (c : Char) : Bool := c = '-' || c = 'V'

theorem head_of_varnish {pre : List Char} (lang : Service.varnish.pattern.pre.Lang pre) :
    ∃ c later, pre = c :: later ∧ begins c := by
  rcases lang with ⟨front, back, rfl, begun, -⟩ | ⟨front, back, rfl, begun, -⟩
  · obtain rfl : front = "-a".toList := (List.map_id front).symm.trans begun
    exact ⟨'-', _, rfl, rfl⟩
  · obtain rfl : front = "VARNISH_LISTEN_PORT".toList := (List.map_id front).symm.trans begun
    exact ⟨'V', _, rfl, rfl⟩

theorem tail_of_option {pre : List Char} (lang : listenOption.Lang pre) :
    ∃ later, pre = '-' :: later ∧ ∀ c ∈ later, ¬begins c := by
  obtain ⟨front, back, rfl, begun, ended⟩ := lang
  obtain rfl : front = "-a".toList := (List.map_id front).symm.trans begun
  have other : ∀ {p : Char → Bool}, p '-' = false → p 'V' = false → ∀ c, p c → ¬begins c := by
    intro p dash letter c holds begun
    rw [begins, Bool.or_eq_true, decide_eq_true_eq, decide_eq_true_eq] at begun
    rcases begun with rfl | rfl
    · rw [dash] at holds
      cases holds
    · rw [letter] at holds
      cases holds
  have avoids : (blanks.seq ((maybe (· = ':')).seq hostColon)).Avoids (begins ·) :=
    (avoids_many (other rfl rfl)).seq ((avoids_maybe (other rfl rfl)).seq
      ((avoids_many (other rfl rfl)).seq (avoids_one (other rfl rfl))))
  refine ⟨'a' :: back, rfl, ?_⟩
  intro c member
  cases member with
  | head => decide
  | tail _ member => exact avoids back ended c member

theorem apart_varnish : Service.varnish.pattern.Apart := by
  intro skipped pre more later port rest begun lang whole split _
  rcases whole with whole | whole
  · exfalso
    obtain ⟨tail, same, none⟩ := tail_of_option whole
    obtain ⟨c, last, rfl, starts⟩ := head_of_varnish lang
    obtain ⟨d, skipped, rfl⟩ := List.exists_cons_of_ne_nil begun
    obtain ⟨-, rfl⟩ := List.cons.inj same
    exact none c (by simp) starts
  · exact nil_of_no_digit split fun c member =>
      avoids_listenPort _ whole c (List.mem_append_right _ member)

theorem Service.apart (service : Service) : service.pattern.Apart := by
  by_cases plain : service.plain
  · exact apart_of_avoids (avoids_plain plain)
  · cases service with
    | caddy => exact apart_caddy
    | ollama => exact apart_of_closes closes_ollama
    | varnish => exact apart_varnish
    | _ => exact absurd rfl plain

theorem run_hostColon {host : List Char} (all : ∀ c ∈ host, hostChar c) (rest : List Char) :
    hostColon.run (host ++ ':' :: rest) = [(host ++ [':'], rest)] := by
  have stuck : ∀ c rest, hostChar c → (one (· = ':') : Matcher Char).run (c :: rest) = [] := by
    rintro c rest visible
    refine if_neg ?_
    rw [decide_eq_true_eq]
    exact avoids_colon_of rfl c visible
  obtain ⟨run, left⟩ := Scan.takeWhile_of_split (p := hostChar) rfl all
    (show ∀ c ∈ (':' :: rest).head?, hostChar c = false by rintro _ ⟨⟩; rfl)
  rw [hostColon, Matcher.run_many_of_stuck stuck, run, left]
  rfl

theorem hostChar_of_isSpace {c : Char} (space : isSpace c) : hostChar c = false := by
  simp only [isSpace, Bool.or_eq_true, Bool.and_eq_true, decide_eq_true_eq] at space
  cases visible : hostChar c with
  | false => rfl
  | true =>
    simp only [hostChar, Bool.or_eq_true, decide_eq_true_eq] at visible
    rcases visible with (lower | digit) | rfl
    · obtain ⟨low, high⟩ := (Bool.and_eq_true _ _).mp lower
      have : 97 ≤ c.toNat := UInt32.le_iff_toNat_le.mp (of_decide_eq_true low)
      have : c.toNat ≤ 122 := UInt32.le_iff_toNat_le.mp (of_decide_eq_true high)
      omega
    · obtain ⟨low, high⟩ := (Bool.and_eq_true _ _).mp digit
      have : 48 ≤ c.toNat := UInt32.le_iff_toNat_le.mp (of_decide_eq_true low)
      have : c.toNat ≤ 57 := UInt32.le_iff_toNat_le.mp (of_decide_eq_true high)
      omega
    · simp at space

/-- The option with a colon before its host is tried before all else. -/
theorem run_option {space host : List Char} (blank : ∀ c ∈ space, isSpace c)
    (all : ∀ c ∈ host, hostChar c) (rest : List Char) :
    ∃ others, listenOption.run ("-a".toList ++ (space ++ ':' :: (host ++ ':' :: rest))) =
      ("-a".toList ++ (space ++ ':' :: (host ++ [':'])), rest) :: others := by
  have colon : ∀ c : Char, decide (c = ':') = true → ¬isSpace c := by
    intro c same
    rw [decide_eq_true_eq] at same
    subst same
    decide
  have avoids : ((maybe (· = ':')).seq hostColon).Avoids (isSpace ·) :=
    (avoids_maybe colon).seq ((avoids_many fun c visible space => by
      rw [hostChar_of_isSpace space] at visible; cases visible).seq (avoids_one colon))
  have something : ¬((maybe (· = ':')).seq hostColon).Lang [] := by
    rintro ⟨front, back, nothing, -, lang⟩
    obtain ⟨-, rfl⟩ := List.append_eq_nil_iff.mp nothing.symm
    exact closes_hostColon.not_lang_nil lang
  obtain ⟨run, left⟩ := Scan.takeWhile_of_split (p := isSpace) rfl blank
    (show ∀ c ∈ (':' :: (host ++ ':' :: rest)).head?, isSpace c = false by rintro _ ⟨⟩; rfl)
  have opened : ((maybe (· = ':')).seq hostColon).run (':' :: (host ++ ':' :: rest)) =
      (hostColon.run (host ++ ':' :: rest)).map (put [':']) ++
        (hostColon.run (':' :: (host ++ ':' :: rest))).map (put []) := by
    have tried : (maybe (· = ':')).run (':' :: (host ++ ':' :: rest)) =
        [([':'], host ++ ':' :: rest), ([], ':' :: (host ++ ':' :: rest))] := rfl
    change ((maybe (· = ':')).run _).flatMap _ = _
    rw [tried, List.flatMap_cons, List.flatMap_cons, List.flatMap_nil, List.append_nil]
  have dash : (word "-a").run ("-a".toList ++ (space ++ ':' :: (host ++ ':' :: rest))) = _ :=
    Matcher.run_literal_append ..
  rw [listenOption, Matcher.run_seq_of_run dash, blanks,
    Matcher.run_many_of_stuck fun c rest space => Matcher.run_of_avoids avoids something space rest,
    run, left, opened, run_hostColon all]
  exact ⟨_, rfl⟩

/-- An option with a colon before its host. -/
def Wide (pre : List Char) : Prop :=
  ∃ space host, (∀ c ∈ space, isSpace c) ∧ (∀ c ∈ host, hostChar c) ∧
    pre = "-a".toList ++ (space ++ ':' :: (host ++ [':']))

theorem Reads.matchAt_wide {text : List Char} {found : Found}
    (reads : Reads Service.varnish.pattern text found) (wide : Wide found.pre) :
    Service.varnish.pattern.matchAt text = some found := by
  obtain ⟨space, host, blank, all, wide⟩ := wide
  have split : text = "-a".toList ++ (space ++ ':' :: (host ++ ':' ::
      (found.digits ++ (found.swallowed ++ found.rest)))) := by
    rw [reads.split, wide]
    simp
  obtain ⟨others, run⟩ := run_option blank all (found.digits ++ (found.swallowed ++ found.rest))
  change (listenOption.run text ++ listenPort.run text).findSome? _ = some found
  rw [split, run, ← wide, List.cons_append, List.findSome?_cons]
  simp only [reads.number]

/-- The other prefixes of Varnish: the assignment, and an option without a colon before its host. -/
theorem narrow_forms {pre : List Char} (lang : Service.varnish.pattern.pre.Lang pre) (narrow : ¬Wide pre) :
    listenPort.Lang pre ∨ ∃ space host, (∀ c ∈ space, isSpace c) ∧ (∀ c ∈ host, hostChar c) ∧
      pre = "-a".toList ++ (space ++ (host ++ [':'])) := by
  rcases lang with ⟨dash, _, rfl, begun, space, _, rfl, blank, colon, _, rfl, maybe, host, _, rfl, all, c,
    rfl, last⟩ | lang
  · obtain rfl : dash = "-a".toList := (List.map_id dash).symm.trans begun
    obtain rfl : c = ':' := decide_eq_true_eq.mp last
    rcases maybe with ⟨d, rfl, same⟩ | rfl
    · obtain rfl : d = ':' := decide_eq_true_eq.mp same
      exact absurd ⟨space, host, blank, all, rfl⟩ narrow
    · exact .inr ⟨space, host, blank, all, rfl⟩
  · exact .inl lang

/-- The blanks after the name of an option, and what follows them. -/
theorem option_space {text space tail : List Char} (split : text = "-a".toList ++ (space ++ tail))
    (blank : ∀ c ∈ space, isSpace c) (visible : ∀ c ∈ tail.head?, isSpace c = false) :
    (text.drop 2).takeWhile isSpace = space ∧ (text.drop 2).dropWhile isSpace = tail :=
  Scan.takeWhile_of_split (by rw [split]; rfl) blank visible

theorem head_of_host {host : List Char} (all : ∀ c ∈ host, hostChar c) (rest : List Char) :
    ∀ c ∈ (host ++ ':' :: rest).head?, isSpace c = false := by
  intro c head
  cases space : isSpace c with
  | false => rfl
  | true =>
    exfalso
    cases host with
    | nil =>
      obtain rfl : ':' = c := by simpa using head
      exact absurd space (by decide)
    | cons d host =>
      obtain rfl : d = c := by simpa using head
      have visible := all d List.mem_cons_self
      rw [hostChar_of_isSpace space] at visible
      cases visible

theorem host_of_split {text host rest : List Char} (split : text = host ++ ':' :: rest)
    (all : ∀ c ∈ host, hostChar c) : text.takeWhile hostChar = host ∧ text.dropWhile hostChar = ':' :: rest :=
  Scan.takeWhile_of_split split all (by rintro _ ⟨⟩; rfl)

theorem head_of_listenPort {pre : List Char} (lang : listenPort.Lang pre) : pre.head? = some 'V' := by
  obtain ⟨front, back, rfl, begun, -⟩ := lang
  obtain rfl : front = "VARNISH_LISTEN_PORT".toList := (List.map_id front).symm.trans begun
  rfl

/-- The prefixes without the colon match in one way at a place. -/
theorem Reads.narrow {text : List Char} {one other : Found}
    (first : Reads Service.varnish.pattern text one) (second : Reads Service.varnish.pattern text other)
    (narrow : ¬Wide one.pre) (narrow' : ¬Wide other.pre) : other.pre = one.pre := by
  have head : ∀ found, Reads Service.varnish.pattern text found → listenPort.Lang found.pre →
      text.head? = some 'V' := by
    intro found reads lang
    rw [reads.split, List.head?_append, head_of_listenPort lang]
    rfl
  have forms : ∀ found, Reads Service.varnish.pattern text found → ∀ space host,
      found.pre = "-a".toList ++ (space ++ (host ++ [':'])) → (∀ c ∈ space, isSpace c) →
      (∀ c ∈ host, hostChar c) → text.head? = some '-' ∧ (text.drop 2).takeWhile isSpace = space ∧
        ((text.drop 2).dropWhile isSpace).takeWhile hostChar = host := by
    intro found reads space host same blank all
    have split : text = "-a".toList ++ (space ++ (host ++ ':' ::
        (found.digits ++ (found.swallowed ++ found.rest)))) := by
      rw [reads.split, same]
      simp
    obtain ⟨taken, left⟩ := option_space split blank (head_of_host all _)
    refine ⟨by rw [split]; rfl, taken, ?_⟩
    rw [left]
    exact (host_of_split rfl all).1
  rcases narrow_forms first.pre narrow with port | ⟨space, host, blank, all, same⟩
  · rcases narrow_forms second.pre narrow' with port' | ⟨space, host, blank, all, same⟩
    · rw [← first.takeWhile (avoids_listenPort _ port), second.takeWhile (avoids_listenPort _ port')]
    · have dash := (forms other second space host same blank all).1
      rw [head one first port] at dash
      cases dash
  · obtain ⟨dash, rfl, rfl⟩ := forms one first space host same blank all
    rcases narrow_forms second.pre narrow' with port' | ⟨space', host', blank', all', same'⟩
    · rw [head other second port'] at dash
      cases dash
    · obtain ⟨-, rfl, rfl⟩ := forms other second space' host' same' blank' all'
      rw [same, same']

end SysDeck.Cockpit.ServicePorts
