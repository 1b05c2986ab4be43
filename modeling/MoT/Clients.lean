import Mathlib.Data.List.Nodup
import MoT.Protocol

/-! The linked list of connections. A node stands for its connection through the file
descriptor its SSL handle was set to; the newest node comes first. -/
namespace MoT
open CMemory

structure Client where
  fd : Int
  uid : UInt32
  username : List.Vector UInt8 maxNameLen
  isOnline : Bool
deriving DecidableEq

def addClient (fd : Int) (clients : List Client) : List Client :=
  ⟨fd, 0, List.Vector.replicate maxNameLen 0, false⟩ :: clients

def removeClient (fd : Int) : List Client → List Client
  | [] => []
  | c :: rest => if c.fd = fd then rest else c :: removeClient fd rest

def getClientByUid (uid : UInt32) (clients : List Client) : Option Client :=
  clients.find? fun c => c.uid = uid ∧ c.isOnline

def getClientByFd (fd : Int) (clients : List Client) : Option Client :=
  clients.find? fun c => c.fd = fd

def writeClient (fd : Int) (f : Client → Client) : List Client → List Client
  | [] => []
  | c :: rest => if c.fd = fd then f c :: rest else c :: writeClient fd f rest

theorem getClientByUid_some {uid : UInt32} {clients : List Client} {c : Client}
    (found : getClientByUid uid clients = some c) :
    c ∈ clients ∧ c.uid = uid ∧ c.isOnline = true := by
  have holds := List.find?_some found
  simp only [Bool.decide_and, Bool.decide_eq_true, Bool.and_eq_true, decide_eq_true_eq] at holds
  exact ⟨List.mem_of_find?_eq_some found, holds⟩

theorem getClientByUid_isSome {uid : UInt32} {clients : List Client} :
    (getClientByUid uid clients).isSome ↔ ∃ c ∈ clients, c.uid = uid ∧ c.isOnline = true := by
  simp [getClientByUid]

theorem getClientByFd_some {fd : Int} {clients : List Client} {c : Client}
    (found : getClientByFd fd clients = some c) : c ∈ clients ∧ c.fd = fd :=
  ⟨List.mem_of_find?_eq_some found, by simpa using List.find?_some found⟩

theorem removeClient_sublist (fd : Int) (clients : List Client) :
    (removeClient fd clients).Sublist clients := by
  induction clients with
  | nil => exact .slnil
  | cons c rest ih =>
    simp only [removeClient]
    split
    · exact List.sublist_cons_self c rest
    · exact ih.cons_cons c

theorem writeClient_fds (fd : Int) (f : Client → Client) (keeps : ∀ c, (f c).fd = c.fd)
    (clients : List Client) : (writeClient fd f clients).map Client.fd = clients.map Client.fd := by
  induction clients with
  | nil => rfl
  | cons c rest ih =>
    simp only [writeClient]
    split
    · simp [keeps]
    · simp [ih]

theorem mem_writeClient {fd : Int} {f : Client → Client} {clients : List Client} {d : Client}
    (member : d ∈ writeClient fd f clients) : d ∈ clients ∨ ∃ c ∈ clients, c.fd = fd ∧ d = f c := by
  induction clients with
  | nil => exact .inl member
  | cons c rest ih =>
    simp only [writeClient] at member
    split at member
    · rename_i hit
      rcases List.mem_cons.mp member with rfl | tail
      · exact .inr ⟨c, List.mem_cons_self, hit, rfl⟩
      · exact .inl (List.mem_cons_of_mem _ tail)
    · rcases List.mem_cons.mp member with rfl | tail
      · exact .inl List.mem_cons_self
      · rcases ih tail with old | ⟨b, hb, new⟩
        · exact .inl (List.mem_cons_of_mem _ old)
        · exact .inr ⟨b, List.mem_cons_of_mem _ hb, new⟩

theorem getClientByFd_cons (fd : Int) (c : Client) (clients : List Client) :
    getClientByFd fd (c :: clients) = if c.fd = fd then some c else getClientByFd fd clients := by
  unfold getClientByFd
  by_cases same : c.fd = fd
  · rw [if_pos same]
    exact List.find?_cons_of_pos (decide_eq_true same)
  · rw [if_neg same]
    exact List.find?_cons_of_neg (by simpa using same)

theorem getClientByFd_of_mem {clients : List Client} (distinct : (clients.map Client.fd).Nodup)
    {c : Client} (member : c ∈ clients) : getClientByFd c.fd clients = some c := by
  cases found : getClientByFd c.fd clients with
  | none =>
    simp only [getClientByFd, List.find?_eq_none, decide_eq_true_eq] at found
    exact absurd rfl (found c member)
  | some d =>
    obtain ⟨there, same⟩ := getClientByFd_some found
    rw [List.inj_on_of_nodup_map distinct there member same]

theorem getClientByFd_writeClient (fd : Int) {f : Client → Client} (keeps : ∀ c, (f c).fd = c.fd)
    (fd' : Int) (clients : List Client) :
    getClientByFd fd' (writeClient fd f clients) =
      if fd = fd' then (getClientByFd fd clients).map f else getClientByFd fd' clients := by
  induction clients with
  | nil => simp [writeClient, getClientByFd]
  | cons c rest ih =>
    simp only [writeClient]
    by_cases hit : c.fd = fd
    · subst hit
      by_cases same : c.fd = fd'
      · simp [getClientByFd_cons, keeps, same]
      · simp [getClientByFd_cons, keeps, same]
    · rw [if_neg hit, getClientByFd_cons, getClientByFd_cons, getClientByFd_cons, ih, if_neg hit]
      by_cases same : fd = fd'
      · subst same
        simp [hit]
      · simp [same]

theorem mem_writeClient_iff {fd : Int} {f : Client → Client} (keeps : ∀ c, (f c).fd = c.fd)
    {clients : List Client} (distinct : (clients.map Client.fd).Nodup) {c d : Client}
    (listed : getClientByFd fd clients = some c) :
    d ∈ writeClient fd f clients ↔ d = f c ∨ d ∈ clients ∧ d.fd ≠ fd := by
  have distinct' : ((writeClient fd f clients).map Client.fd).Nodup := by
    rw [writeClient_fds fd f keeps]
    exact distinct
  have here := getClientByFd_some listed
  constructor
  · intro member
    have found := getClientByFd_of_mem distinct' member
    rw [getClientByFd_writeClient fd keeps] at found
    split at found
    · rw [listed, Option.map_some] at found
      exact .inl (Option.some.inj found).symm
    · rename_i other
      exact .inr ⟨(getClientByFd_some found).1, fun same => other same.symm⟩
  · intro cases
    have found : getClientByFd d.fd (writeClient fd f clients) = some d := by
      rw [getClientByFd_writeClient fd keeps]
      rcases cases with rfl | ⟨member, other⟩
      · rw [if_pos (here.2.symm.trans (keeps c).symm), listed, Option.map_some]
      · rw [if_neg (Ne.symm other), getClientByFd_of_mem distinct member]
    exact (getClientByFd_some found).1

theorem removeClient_eq_filter (fd : Int) {clients : List Client}
    (distinct : (clients.map Client.fd).Nodup) :
    removeClient fd clients = clients.filter fun c => c.fd ≠ fd := by
  induction clients with
  | nil => rfl
  | cons c rest ih =>
    obtain ⟨fresh, distinct⟩ := List.nodup_cons.mp distinct
    simp only [removeClient]
    split
    · rename_i hit
      subst hit
      have others : rest.filter (fun d => d.fd ≠ c.fd) = rest := by
        refine List.filter_eq_self.mpr fun d member => decide_eq_true fun same => fresh ?_
        exact List.mem_map.mpr ⟨d, member, same⟩
      rw [List.filter_cons_of_neg (by simp), others]
    · rename_i other
      rw [List.filter_cons_of_pos (by simpa using other), ih distinct]

theorem getClientByFd_removeClient (fd fd' : Int) {clients : List Client}
    (distinct : (clients.map Client.fd).Nodup) :
    getClientByFd fd' (removeClient fd clients) =
      if fd = fd' then none else getClientByFd fd' clients := by
  rw [removeClient_eq_filter fd distinct]
  induction clients with
  | nil => simp [getClientByFd]
  | cons c rest ih =>
    have rest' := ih (List.nodup_cons.mp distinct).2
    by_cases hit : c.fd = fd
    · rw [List.filter_cons_of_neg (by simpa using hit), rest', getClientByFd_cons, hit]
      split <;> rfl
    · rw [List.filter_cons_of_pos (by simpa using hit), getClientByFd_cons, getClientByFd_cons,
        rest']
      by_cases same : fd = fd'
      · subst same
        simp [hit]
      · simp [same]

end MoT
