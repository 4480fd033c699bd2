import Docweave.CommandLine.Run

open Docweave

partial def readPaths (input : IO.FS.Stream) (paths : List String) : IO (List String) := do
  let line ← input.getLine
  if line.isEmpty then return paths
  let path := Text.dropEndNewlines line
  readPaths input (if path.isEmpty then paths else paths ++ [path])

def readStore (home : List String) (paths : List String) : IO Files.Store := do
  let mut store := Files.Store.empty home
  for path in paths do
    let bytes ← IO.FS.readBinFile path
    store := store.provide path (.ofBytes (bytes.toList.map UInt8.toNat))
  return store

def writeChanges (old new : Files.Store) : IO Unit := do
  for (path, content) in old.changed new do
    if let .text text := content then
      let folder := Path.parent path
      if !folder.isEmpty then IO.FS.createDirAll folder
      IO.FS.writeFile path text

def main (args : List String) : IO UInt32 := do
  let home := Path.namesOf ((← IO.getEnv "PWD").getD "/")
  let store ← readStore home (← readPaths (← IO.getStdin) [])
  let ran := CommandLine.runTold (← IO.getEnv "MISTUNE") args store
  writeChanges store ran.store
  IO.print ran.out
  IO.eprint ran.err
  match ran.outcome with
  | .returned code | .exited code => return code.toUInt32
  | .failed fault =>
      IO.eprintln fault.message
      return 1
