import GameInstaller.Archive.Format
import GameInstaller.Config.Store
import GameInstaller.Disk.IoError
import GameInstaller.Disk.Transfer
import GameInstaller.Journal.Log
import GameInstaller.Process.Basic
import GameInstaller.Runner.Basic

/-! # What an install acts through

Everything that an install does outside itself is a call of its host, which is any set of actions
on some state.  A run decides what to call; the host decides what comes of it. -/

namespace GameInstaller

open Disk (ByteStream Fault IoError)

/-- The filesystem of an install. -/
structure Files (σ : Type) where
  movePath : Path → Path → StateM σ (Except Fault Unit)
  copyTree : Path → Path → StateM σ (Except Fault Unit)
  /-- Make a directory and its parents; one that is there already is reported. -/
  createDir : Path → StateM σ (Except Fault Unit)
  extract : Path → Path → Archive.Format → StateM σ (Except Fault Unit)
  openFile : Path → StateM σ (Except Fault ByteStream)

/-- The actions of an install. -/
structure Host (σ : Type) extends Files σ where
  /-- What the game is played through. -/
  runner : Runner σ
  /-- What the runner needs first. -/
  dependency : Option (Runner σ)
  /-- Save the entry of a game. -/
  saveEntry : String → GameEntry → StateM σ (Except StoreError Unit)
  /-- Run a program to its end. -/
  spawn : Launch → StateM σ (Except IoError Exit)
  /-- Whether the user has called the install off. -/
  isCancelled : StateM σ Bool
  /-- Append to the journal of a game. -/
  append : Path → String → Journal.Event → StateM σ (Except Journal.LogError Unit)
  /-- An identifier for a run. -/
  newRunId : StateM σ String
  /-- The reading of a clock that never goes back, in nanoseconds. -/
  clock : StateM σ Nat

/-- An action on a part of a state. -/
def onPart {σ τ α : Type} (get : σ → τ) (put : τ → σ → σ) (x : StateM τ α) : StateM σ α :=
  fun s => let (a, t) := x.run (get s); (a, put t s)

/-- A filesystem that is a part of a state. -/
def Files.onPart {σ τ : Type} (get : σ → τ) (put : τ → σ → σ) (f : Files τ) : Files σ where
  movePath src dst := GameInstaller.onPart get put (f.movePath src dst)
  copyTree src dst := GameInstaller.onPart get put (f.copyTree src dst)
  createDir p := GameInstaller.onPart get put (f.createDir p)
  extract archive dst format := GameInstaller.onPart get put (f.extract archive dst format)
  openFile p := GameInstaller.onPart get put (f.openFile p)

/-- A runner that is a part of a state. -/
def Runner.onPart {σ τ : Type} (get : σ → τ) (put : τ → σ → σ) (r : Runner τ) : Runner σ where
  name := r.name
  isInstalled := GameInstaller.onPart get put r.isInstalled
  install := GameInstaller.onPart get put r.install

end GameInstaller
