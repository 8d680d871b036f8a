/-
# Looking up the address of a service

`getServiceAddress` takes the next address, in turn, from the map that `getIp`
gives. Both implementations keep one map for all services: `getIp` fills it at
the first look-up only, for the service asked then. `Client` is what the two
share, with what was registered and returned; `Zookeeper` and `Eureka` add
their registry and its events. `isolated_of_careful`: an address is returned
only for a service it was registered under, in every run whose look-ups find
the map unset or last filled for the service they ask for, and whose addresses
have no `_`, at which `setIpMap` cuts them.
-/
import Mathlib.Data.List.ReduceOption
import CloudManager.Lib.JavaString
import CloudManager.Lib.LinkedHashMap
import CloudManager.Lib.Runs

namespace CloudManager
namespace Discovery

open Runs

/-! ### DiscoveryService -/

/-- `PollRibbon.getIpAddress` from `pos`: the address, if there is one, and `pos`
afterwards. -/
def pollRibbon (pos : ℕ) (ipMap : LinkedHashMap String ℕ) : Option String × ℕ :=
  let iplist := ipMap.keys
  let pos := if iplist.length ≤ pos then 0 else pos
  match iplist[pos]? with
  | some serverName => (some serverName, pos + 1)
  | none => (none, pos)

/-- `init`, `ipMap`, and the position of each service's ribbon. -/
structure Book where
  init : Bool := false
  ipMap : LinkedHashMap String ℕ := .empty
  ribbons : String → Option ℕ := fun _ => none

namespace Book

/-- `setIpMap`: the parts before `_`, up to an entry without one, where it
throws. -/
def setIpMap (b : Book) (ipServer : List String) : Book :=
  let ips := ((ipServer.map (JavaString.firstPart '_')).takeWhile Option.isSome).reduceOption
  { b with ipMap := LinkedHashMap.empty.putAll (ips.map fun ip => (ip, 1)) }

/-- `getIp`; `list` is what the registry lists for the service, if it has it.
The second component says whether it returns, or throws. -/
def getIp (b : Book) (list : Option (List String)) : Book × Bool :=
  if b.init then (b, true)
  else
    match list with
    | none => (b, false)
    | some l =>
      if (l.map (JavaString.firstPart '_')).all Option.isSome then
        ({ b.setIpMap l with init := true }, true)
      else (b.setIpMap l, false)

/-- `getServiceAddress` of a lower-cased service name: the address, unless a
call throws. -/
def getServiceAddress (b : Book) (service : String) (list : Option (List String)) :
    Option String × Book :=
  let pos := (b.ribbons service).getD 0
  let b := { b with ribbons := Function.update b.ribbons service (some pos) }
  match b.getIp list with
  | (b, false) => (none, b)
  | (b, true) =>
    let (address, pos) := pollRibbon pos b.ipMap
    (address, { b with ribbons := Function.update b.ribbons service (some pos) })

end Book

/-- A `DiscoveryService` and its history: the service the map was last filled
for, the addresses registered by service, and those returned, with the service
asked for. -/
structure Client where
  book : Book := {}
  filledFor : Option String := none
  registered : String → List String := fun _ => []
  returned : List (String × String) := []

namespace Client

def lookup (c : Client) (service : String) (list : Option (List String)) : Client :=
  let x := c.book.getServiceAddress service list
  { c with
    book := x.2
    filledFor := if !c.book.init && list.isSome then some service else c.filledFor
    returned := (x.1.map fun address => (service, address)).toList ++ c.returned }

/-- The map is filled with what is listed for a service. -/
def refresh (c : Client) (service : String) (list : List String) : Client :=
  { c with book := c.book.setIpMap list, filledFor := some service }

def register (c : Client) (service address : String) : Client :=
  { c with registered := Function.update c.registered service (address :: c.registered service) }

/-- Every address was returned for a service it was registered under. -/
def Isolated (c : Client) : Prop := ∀ x ∈ c.returned, x.2 ∈ c.registered x.1

/-- The look-up fills the map for its service, or finds it filled for it. -/
def Fits (c : Client) (service : String) : Prop :=
  c.book.init = false ∨ c.filledFor = some service

instance (c : Client) (service : String) : Decidable (c.Fits service) :=
  inferInstanceAs (Decidable (_ ∨ _))

/-- What the map was last filled with is registered under the service it was
filled for. -/
structure Inv (c : Client) : Prop where
  filled : ∀ service, c.filledFor = some service →
    ∀ ip ∈ c.book.ipMap.keys, ip ∈ c.registered service
  isolated : c.Isolated

/-- The addresses of a list are registered under a service. -/
def Lists (c : Client) (service : String) (list : List String) : Prop :=
  ∀ x ∈ list, ∀ a, JavaString.firstPart '_' x = some a → a ∈ c.registered service

end Client

/-! ### What a look-up returns -/

namespace Book

variable {b : Book} {service ip : String}

theorem mem_keys_setIpMap {list : List String} (h : ip ∈ (b.setIpMap list).ipMap.keys) :
    ∃ x ∈ list, JavaString.firstPart '_' x = some ip := by
  rcases LinkedHashMap.mem_keys_putAll h with h | h
  · cases h
  · obtain ⟨e, he, rfl⟩ := List.mem_map.mp h
    obtain ⟨ip, hip, rfl⟩ := List.mem_map.mp he
    exact List.mem_map.mp (List.takeWhile_subset _ (List.reduceOption_mem_iff.mp hip))

/-- The map after a look-up: filled afresh, unless it was filled before or the
registry does not have the service. -/
theorem getServiceAddress_ipMap (list : Option (List String)) :
    (b.getServiceAddress service list).2.ipMap =
      if b.init then b.ipMap else list.elim b.ipMap fun l => (b.setIpMap l).ipMap := by
  simp only [getServiceAddress, getIp]
  cases b.init with
  | true => rfl
  | false =>
    cases list with
    | none => rfl
    | some l => by_cases h : (l.map (JavaString.firstPart '_')).all Option.isSome <;> simp [h, setIpMap]

end Book

theorem mem_of_pollRibbon {pos : ℕ} {ipMap : LinkedHashMap String ℕ} {ip : String}
    (h : (pollRibbon pos ipMap).1 = some ip) : ip ∈ ipMap.keys := by
  simp only [pollRibbon] at h
  split at h
  · rename_i hget
    cases h
    exact List.mem_of_getElem? hget
  · cases h

/-- An address returned is in the map after the look-up, and there was a list
if it was not filled before. -/
theorem Book.mem_of_getServiceAddress {b : Book} {service ip : String} {list : Option (List String)}
    (h : (b.getServiceAddress service list).1 = some ip) :
    ip ∈ (b.getServiceAddress service list).2.ipMap.keys ∧ (b.init = false → list.isSome) := by
  simp only [getServiceAddress, getIp] at h ⊢
  cases hi : b.init with
  | true =>
    simp only [hi, if_true] at h ⊢
    exact ⟨mem_of_pollRibbon h, nofun⟩
  | false =>
    simp only [hi, Bool.false_eq_true, if_false] at h ⊢
    cases list with
    | none => cases h
    | some l =>
      by_cases hall : (l.map (JavaString.firstPart '_')).all Option.isSome
      · simp only [hall, if_true] at h ⊢
        exact ⟨mem_of_pollRibbon h, fun _ => rfl⟩
      · simp only [hall] at h
        cases h

namespace Client

variable {c : Client} {service : String} {list : List String}

theorem Inv.start : Inv {} where
  filled _ h := by cases h
  isolated _ h := by cases h

theorem mem_register {service' address ip : String} (h : ip ∈ c.registered service) :
    ip ∈ (c.register service' address).registered service := by
  show ip ∈ Function.update c.registered service' _ service
  by_cases hs : service = service'
  · subst hs
    rw [Function.update_self]
    exact List.mem_cons_of_mem _ h
  · rwa [Function.update_of_ne hs]

theorem Lists.register {service' address : String} (h : c.Lists service list) :
    (c.register service' address).Lists service list :=
  fun x hx a ha => mem_register (h x hx a ha)

theorem Inv.register {address : String} (h : c.Inv) : (c.register service address).Inv where
  filled s hs ip hip := mem_register (h.filled s hs ip hip)
  isolated x hx := mem_register (h.isolated x hx)

theorem Inv.refresh (h : c.Inv) (hl : c.Lists service list) : (c.refresh service list).Inv where
  filled s hs ip hip := by
    cases hs
    obtain ⟨x, hx, ha⟩ := Book.mem_keys_setIpMap hip
    exact hl x hx ip ha
  isolated := h.isolated

/-- The map after a look-up that fits is registered under the service the map is
then filled for. -/
theorem filled_lookup {list : Option (List String)} (h : c.Inv)
    (hl : ∀ l ∈ list, c.Lists service l) {s : String}
    (hs : (c.lookup service list).filledFor = some s) :
    ∀ ip ∈ (c.lookup service list).book.ipMap.keys, ip ∈ c.registered s := by
  intro ip hip
  simp only [lookup, Book.getServiceAddress_ipMap] at hs hip
  cases hi : c.book.init with
  | true =>
    simp only [hi] at hs hip
    exact h.filled s hs ip hip
  | false =>
    cases list with
    | none =>
      simp only [hi] at hs hip
      exact h.filled s hs ip hip
    | some l =>
      simp only [hi] at hs hip
      cases hs
      obtain ⟨x, hx, ha⟩ := Book.mem_keys_setIpMap hip
      exact hl l rfl x hx ip ha

theorem Inv.lookup {list : Option (List String)} (h : c.Inv) (hf : c.Fits service)
    (hl : ∀ l ∈ list, c.Lists service l) : (c.lookup service list).Inv where
  filled _ hs := filled_lookup h hl hs
  isolated x hx := by
    rcases List.mem_append.mp hx with hx | hx
    · obtain ⟨ip, hip, rfl⟩ := Option.map_eq_some_iff.mp (Option.mem_toList.mp hx)
      obtain ⟨hmem, hlist⟩ := Book.mem_of_getServiceAddress hip
      refine filled_lookup h hl ?_ ip hmem
      -- the map is filled for the service by now
      simp only [Client.lookup]
      rcases hf with hi | hfor
      · simp [hi, hlist hi]
      · simp [hfor]
    · exact h.isolated x hx

end Client

/-! ### ZooKeeper -/

/-- What the service relies on: `toLowerCase`, and the paths ZooKeeper takes. -/
structure Zookeeper where
  lower : String → String
  legal : String → Bool

namespace Zookeeper

/-- The persistent nodes by their path below `/registry` (the root itself is
`""`), each with its children, and the watches set and notifications pending. -/
structure State where
  client : Client := {}
  children : String → Option (List String) := fun _ => none
  watches : String → ℕ := fun _ => 0
  fired : String → ℕ := fun _ => 0

inductive Event
  | register (service registration : String) (n : ℕ)
  | leave (path child : String)
  | notify (path : String)
  | lookup (service : String)
  deriving DecidableEq, Repr

/-- A path as its parent and its name. -/
def splitPath (path : String) : String × String := JavaString.splitLast '/' path

/-- The suffix of a sequential node. -/
def sequence (n : ℕ) : String :=
  let digits := (Nat.repr n).toList
  String.ofList (List.replicate (10 - digits.length) '0' ++ digits)

variable (z : Zookeeper)

def State.exists (s : State) (path : String) : Bool :=
  (splitPath path).2 ∈ (s.children (splitPath path).1).getD []

def State.put (s : State) (path : String) (list : List String) : State :=
  { s with children := Function.update s.children path (some list) }

/-- The watches on a node fire as its children change. -/
def State.change (s : State) (path : String) (list : List String) : State :=
  { s.put path list with
    fired := Function.update s.fired path (s.fired path + s.watches path)
    watches := Function.update s.watches path 0 }

/-- `create` throws for a path that is not taken, that is there, or whose parent
is not there or ephemeral. -/
def create (s : State) (path : String) : Option State :=
  let parent := (splitPath path).1
  match s.children parent with
  | none => none
  | some list =>
    if path = "" || !z.legal path || s.exists path then none
    else some (s.change parent (list ++ [(splitPath path).2]))

/-- A persistent node, if it is not there. -/
def persist (s : State) (path : String) : Option State :=
  if path = "" || !z.legal path then none
  else if s.exists path then some s
  else (z.create s path).map fun s => s.put path []

/-- `register`, where `n` is the sequence number ZooKeeper gives. -/
def register (s : State) (serviceName registration : String) (n : ℕ) : State :=
  let serviceRoot := z.lower serviceName
  let s := if (s.children "").isNone then s.put "" [] else s
  match z.persist s serviceRoot with
  | none => s
  | some s =>
    let serviceInstance := serviceRoot ++ "/" ++ registration ++ "_"
    if !z.legal serviceInstance || s.exists serviceInstance then s
    else
      match z.create s (serviceInstance ++ sequence n) with
      | none => s
      | some s => { s with client := s.client.register serviceRoot registration }

def step (s : State) : Event → Option State
  | .register service registration n => some (z.register s service registration n)
  | .leave path child =>
    if path = "" || (s.children (path ++ "/" ++ child)).isSome then none
    else (s.children path).map fun list => s.change path (list.erase child)
  | .notify path =>
    -- nobody watches the root
    if path = "" || s.fired path = 0 then none
    else (s.children path).map fun list =>
      { s with
        client := s.client.refresh path list
        fired := Function.update s.fired path (s.fired path - 1)
        watches := Function.update s.watches path (s.watches path + 1) }
  | .lookup service =>
    let path := z.lower service
    let list := if path = "" then none else s.children path
    let watched := !s.client.book.init && list.isSome
    some { s with
      client := s.client.lookup path list
      watches := Function.update s.watches path (s.watches path + watched.toNat) }

/-- A look-up finds the map unset or filled for its service; a service's name
is no path, and an address holds neither `/` nor `_`. -/
def Careful (s : State) : Event → Prop
  | .register service registration _ =>
    '/' ∉ (z.lower service).toList ∧ '/' ∉ registration.toList ∧ '_' ∉ registration.toList
  | .lookup service => s.client.Fits (z.lower service)
  | .leave .. | .notify _ => True

instance : ∀ (s : State) (e : Event), Decidable (z.Careful s e)
  | _, .register .. => inferInstanceAs (Decidable (_ ∧ _))
  | _, .lookup _ => inferInstanceAs (Decidable (Client.Fits _ _))
  | _, .leave .. | _, .notify _ => .isTrue trivial

variable {z} {s s' : State}

theorem slash_not_mem_sequence (n : ℕ) : '/' ∉ (sequence n).toList := by
  intro h
  rw [sequence, String.toList_ofList, List.mem_append, Nat.toList_repr] at h
  rcases h with h | h
  · cases List.eq_of_mem_replicate h
  · have hd := Nat.isDigit_of_mem_toDigits (by decide) (by decide) h
    revert hd
    decide

/-- Every child of a service is an address registered under it, up to the `_`. -/
structure Inv (s : State) : Prop where
  client : s.client.Inv
  listed : ∀ path, path ≠ "" → ∀ list ∈ s.children path, s.client.Lists path list

theorem Inv.start : Inv {} where
  client := Client.Inv.start
  listed _ _ _ h := by cases h

theorem mem_children_put {path p : String} {l list : List String}
    (h : list ∈ (s.put path l).children p) : (p = path ∧ list = l) ∨ list ∈ s.children p := by
  by_cases hp : p = path
  · subst hp
    simp only [State.put, Function.update_self, Option.mem_def, Option.some.injEq] at h
    exact .inl ⟨rfl, h.symm⟩
  · simp only [State.put, Function.update_of_ne hp] at h
    exact .inr h

/-- A node is listed under its parent, and that is all `create` does to the
children. -/
theorem create_spec {path parent name : String} (hp : splitPath path = (parent, name))
    (h : z.create s path = some s') :
    path ≠ "" ∧ s'.client = s.client ∧ ∃ list, s.children parent = some list ∧
      s'.children = (s.put parent (list ++ [name])).children := by
  simp only [create, hp] at h
  split at h
  · cases h
  rename_i list hlist
  split at h
  · cases h
  rename_i hcond
  cases h
  exact ⟨by simp_all, rfl, list, hlist, rfl⟩

/-- Where no service's list gains an entry. -/
theorem Inv.shrink (h : Inv s) (hc : s'.client = s.client)
    (hl : ∀ p, p ≠ "" → ∀ list ∈ s'.children p, list = [] ∨ ∃ old ∈ s.children p, list ⊆ old) :
    Inv s' where
  client := hc ▸ h.client
  listed p hp list hlist x hx a ha := by
    rw [hc]
    rcases hl p hp list hlist with rfl | ⟨old, hold, hsub⟩
    · cases hx
    · exact h.listed p hp old hold x (hsub hx) a ha

/-- `persist` leaves the lists of the services as they are; a new one is empty. -/
theorem persist_spec {path : String} (hp : '/' ∉ path.toList) (h : z.persist s path = some s') :
    path ≠ "" ∧ s'.client = s.client ∧
      ∀ p, p ≠ "" → ∀ list ∈ s'.children p, list = [] ∨ list ∈ s.children p := by
  have hpath : splitPath path = ("", path) := JavaString.splitLast_of_not_mem hp
  unfold persist at h
  split at h
  · cases h
  rename_i hcond
  have hne : path ≠ "" := by simp_all
  split at h
  · cases h
    exact ⟨hne, rfl, fun _ _ _ hl => .inr hl⟩
  · obtain ⟨s1, h1, rfl⟩ := Option.map_eq_some_iff.mp h
    obtain ⟨-, hc, list, -, hchildren⟩ := create_spec hpath h1
    refine ⟨hne, hc, fun p hp list hl => ?_⟩
    rcases mem_children_put hl with ⟨-, rfl⟩ | hl
    · exact .inl rfl
    · rw [hchildren] at hl
      rcases mem_children_put hl with ⟨he, -⟩ | hl
      · exact absurd he hp
      · exact .inr hl

/-- An instance is listed under its service, with the address it is registered
by up to the `_`. -/
theorem Inv.instance {path registration : String} {n : ℕ} (h : Inv s)
    (hslash : '/' ∉ registration.toList) (hbar : '_' ∉ registration.toList)
    (hs : z.create s (path ++ "/" ++ registration ++ "_" ++ sequence n) = some s') :
    Inv { s' with client := s'.client.register path registration } := by
  have hassoc : path ++ "/" ++ registration ++ "_" ++ sequence n =
      path ++ String.singleton '/' ++ (registration ++ String.singleton '_' ++ sequence n) := by
    simp only [String.append_assoc]
    rfl
  have hname : '/' ∉ (registration ++ String.singleton '_' ++ sequence n).toList := by
    simp [hslash, slash_not_mem_sequence]
  have hpath : splitPath _ = _ := JavaString.splitLast_append (s := path) hname
  rw [hassoc] at hs
  obtain ⟨-, hc, list, hlist, hchildren⟩ := create_spec hpath hs
  rw [hc]
  refine ⟨h.client.register, fun p hp l hl => ?_⟩
  simp only [hchildren] at hl
  rcases mem_children_put hl with ⟨rfl, rfl⟩ | hl
  · intro x hx a ha
    rcases List.mem_append.mp hx with hx | hx
    · exact Client.mem_register (h.listed p hp list hlist x hx a ha)
    · obtain rfl := List.mem_singleton.mp hx
      obtain rfl := JavaString.firstPart_append hbar ha
      simp [Client.register]
  · exact (h.listed p hp l hl).register

theorem Inv.register {serviceName registration : String} {n : ℕ} (h : Inv s)
    (hok : z.Careful s (.register serviceName registration n)) :
    Inv (z.register s serviceName registration n) := by
  obtain ⟨hservice, hslash, hbar⟩ := hok
  -- the root, if it is not there
  have hroot : Inv (if (s.children "").isNone then s.put "" [] else s) := by
    split
    · refine h.shrink rfl fun p _ list hl => ?_
      rcases mem_children_put hl with ⟨-, rfl⟩ | hl
      · exact .inl rfl
      · exact .inr ⟨list, hl, List.Subset.refl _⟩
    · exact h
  simp only [Zookeeper.register]
  split
  · exact hroot
  rename_i s1 h1
  obtain ⟨-, hc, hl⟩ := persist_spec hservice h1
  have h1 : Inv s1 := by
    refine hroot.shrink hc fun p hp list hlist => ?_
    exact (hl p hp list hlist).imp_right fun h => ⟨list, h, List.Subset.refl _⟩
  split
  · exact h1
  split
  · exact h1
  · rename_i s2 h2
    exact h1.instance hslash hbar h2

theorem Inv.step {e : Event} (h : Inv s) (hok : z.Careful s e) (he : z.step s e = some s') :
    Inv s' := by
  cases e with
  | register serviceName registration n =>
    cases he
    exact h.register hok
  | leave path child =>
    simp only [Zookeeper.step] at he
    split at he
    · cases he
    obtain ⟨list, hlist, rfl⟩ := Option.map_eq_some_iff.mp he
    refine h.shrink rfl fun p _ l hl => .inr ?_
    rcases mem_children_put hl with ⟨rfl, rfl⟩ | hl
    · exact ⟨list, hlist, List.erase_subset⟩
    · exact ⟨l, hl, List.Subset.refl _⟩
  | notify path =>
    simp only [Zookeeper.step] at he
    split at he
    · cases he
    rename_i hcond
    have hne : path ≠ "" := by simp_all
    obtain ⟨list, hlist, rfl⟩ := Option.map_eq_some_iff.mp he
    exact ⟨h.client.refresh (h.listed path hne list hlist), h.listed⟩
  | lookup service =>
    cases he
    refine ⟨h.client.lookup hok fun l hl => ?_, h.listed⟩
    split at hl
    · cases hl
    · rename_i hne
      exact h.listed _ hne l hl

end Zookeeper

/-! ### Eureka -/

/-- An instance, with the port in its metadata under `GRPC_ADDRESS_KEY`. -/
structure Instance where
  host : String
  port : Option String
  deriving DecidableEq, Repr

/-- `String.format("%s:%s", host, port)`. -/
def Instance.address (i : Instance) : String := i.host ++ ":" ++ i.port.getD "null"

/-- What the service relies on: `toLowerCase`. -/
structure Eureka where
  lower : String → String

namespace Eureka

/-- The instances of each service. -/
structure State where
  client : Client := {}
  instances : String → List Instance := fun _ => []

inductive Event
  | up (service : String) (i : Instance)
  | down (service : String) (i : Instance)
  /-- A registered or cancelled event reaches `listener`. -/
  | changed
  | lookup (service : String)
  deriving DecidableEq, Repr

variable (eureka : Eureka)

/-- An instance without a port in its metadata is registered under no address. -/
def step (s : State) : Event → Option State
  | .up service i =>
    let id := eureka.lower service
    some
      { client := if i.port.isSome then s.client.register id i.address else s.client
        instances := Function.update s.instances id (s.instances id ++ [i]) }
  | .down service i =>
    let id := eureka.lower service
    some { s with instances := Function.update s.instances id ((s.instances id).erase i) }
  | .changed =>
    some { s with client := { s.client with book := { s.client.book with init := false } } }
  | .lookup service =>
    let id := eureka.lower service
    some { s with client := s.client.lookup id (some ((s.instances id).map Instance.address)) }

/-- A look-up finds the map unset or filled for its service; an instance has a
port, and no `_` in its address. -/
def Careful (s : State) : Event → Prop
  | .up _ i => i.port.isSome ∧ '_' ∉ i.address.toList
  | .lookup service => s.client.Fits (eureka.lower service)
  | .down .. | .changed => True

instance : ∀ (s : State) (e : Event), Decidable (eureka.Careful s e)
  | _, .up .. => inferInstanceAs (Decidable (_ ∧ _))
  | _, .lookup _ => inferInstanceAs (Decidable (Client.Fits _ _))
  | _, .down .. | _, .changed => .isTrue trivial

variable {eureka} {s s' : State}

/-- What is up is registered under its address, which has no `_`. -/
structure Inv (s : State) : Prop where
  client : s.client.Inv
  listed : ∀ id, ∀ i ∈ s.instances id, '_' ∉ i.address.toList ∧ i.address ∈ s.client.registered id

theorem Inv.start : Inv {} where
  client := Client.Inv.start
  listed _ _ h := by cases h

theorem Inv.up {id : String} {i : Instance} (h : Inv s) (hbar : '_' ∉ i.address.toList) :
    Inv { client := s.client.register id i.address
          instances := Function.update s.instances id (s.instances id ++ [i]) } where
  client := h.client.register
  listed id' i' hi' := by
    have hold : ∀ j ∈ s.instances id', '_' ∉ j.address.toList ∧
        j.address ∈ (s.client.register id i.address).registered id' := fun j hj =>
      ⟨(h.listed id' j hj).1, Client.mem_register (h.listed id' j hj).2⟩
    by_cases he : id' = id
    · subst he
      simp only [Function.update_self] at hi'
      rcases List.mem_append.mp hi' with hi' | hi'
      · exact hold i' hi'
      · obtain rfl := List.mem_singleton.mp hi'
        exact ⟨hbar, by simp [Client.register]⟩
    · simp only [Function.update_of_ne he] at hi'
      exact hold i' hi'

theorem Inv.step {e : Event} (h : Inv s) (hok : eureka.Careful s e) (he : eureka.step s e = some s') :
    Inv s' := by
  cases e with
  | up service i =>
    obtain ⟨hport, hbar⟩ := hok
    simp only [Eureka.step, hport, if_true, Option.some.injEq] at he
    exact he ▸ h.up hbar
  | down service i =>
    cases he
    refine ⟨h.client, fun id j hj => h.listed id j ?_⟩
    by_cases hid : id = eureka.lower service
    · subst hid
      simp only [Function.update_self] at hj
      exact List.mem_of_mem_erase hj
    · simpa only [Function.update_of_ne hid] using hj
  | changed =>
    cases he
    exact ⟨⟨h.client.filled, h.client.isolated⟩, h.listed⟩
  | lookup service =>
    cases he
    refine ⟨h.client.lookup hok ?_, h.listed⟩
    rintro l ⟨⟩ x hx a ha
    obtain ⟨i, hi, rfl⟩ := List.mem_map.mp hx
    obtain ⟨hbar, hreg⟩ := h.listed _ i hi
    rw [JavaString.firstPart_of_not_mem hbar] at ha
    cases ha
    exact hreg

end Eureka

/-! ### Isolation -/

/-- **Look-ups are isolated** in every run, with either registry, whose look-ups
find the map unset or last filled for their service: the address returned for a
service was registered under it. -/
theorem isolated_of_careful (z : Zookeeper) (eureka : Eureka) :
    (∀ s, Reach z.step z.Careful {} s → s.client.Isolated) ∧
      ∀ s, Reach eureka.step eureka.Careful {} s → s.client.Isolated := by
  constructor
  · intro s h
    have hI : Zookeeper.Inv s := h.invariant Zookeeper.Inv.start fun _ _ _ => Zookeeper.Inv.step
    exact hI.client.isolated
  · intro s h
    have hI : Eureka.Inv s := h.invariant Eureka.Inv.start fun _ _ _ => Eureka.Inv.step
    exact hI.client.isolated

/-! ### Runs -/

/-- The names and paths here are lower case and legal. -/
def zookeeper : Zookeeper := { lower := id, legal := fun _ => true }

def eureka : Eureka := { lower := id }

/-- One service, whose second instance is noticed by the watch. -/
def oneService : List Zookeeper.Event :=
  [.register "order" "10.0.0.1:80" 0, .lookup "order", .register "order" "10.0.0.2:80" 1,
    .notify "order", .lookup "order"]

/-- The map is filled afresh between the look-ups of two services. -/
def refilled : List Eureka.Event :=
  [.up "order" ⟨"10.0.0.1", some "80"⟩, .up "user" ⟨"10.0.0.2", some "80"⟩, .lookup "order",
    .changed, .lookup "user"]

theorem isolated_runs :
    ((runWith zookeeper.step zookeeper.Careful {} oneService).get (by decide +kernel)).client.Isolated ∧
      ((runWith eureka.step eureka.Careful {} refilled).get (by decide +kernel)).client.Isolated :=
  ⟨(isolated_of_careful zookeeper eureka).1 _ (reach_get oneService (by decide +kernel)),
    (isolated_of_careful zookeeper eureka).2 _ (reach_get refilled (by decide +kernel))⟩

/-- Two services, looked up one after the other. -/
def twoServices : List Zookeeper.Event :=
  [.register "order" "10.0.0.1:80" 0, .register "user" "10.0.0.2:80" 0, .lookup "order",
    .lookup "user"]

def twoApplications : List Eureka.Event :=
  [.up "order" ⟨"10.0.0.1", some "80"⟩, .up "user" ⟨"10.0.0.2", some "80"⟩, .lookup "order",
    .lookup "user"]

/-- The second service gets the first one's address, from either registry. -/
theorem wrong_service :
    (¬ ∀ (z : Zookeeper) (s : Zookeeper.State),
      Reach z.step (fun _ _ => True) {} s → s.client.Isolated) ∧
    ¬ ∀ (eureka : Eureka) (s : Eureka.State),
      Reach eureka.step (fun _ _ => True) {} s → s.client.Isolated := by
  constructor
  · intro h
    have hi := h zookeeper _ (reach_get twoServices (by decide +kernel)) ("user", "10.0.0.1:80")
      (by decide +kernel)
    revert hi
    decide +kernel
  · intro h
    have hi := h eureka _ (reach_get twoApplications (by decide +kernel))
      ("user", "10.0.0.1:80") (by decide +kernel)
    revert hi
    decide +kernel

end Discovery
end CloudManager
