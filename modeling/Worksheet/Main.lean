import Worksheet.CommandLine

/-!
The program around the command line: it prints the answer and ends with its code.
-/

def main (arguments : List String) : IO UInt32 := do
  let answer := Worksheet.CommandLine.run arguments
  (← IO.getStdout).putStr answer.output
  match answer.errorText? with
  | none => pure ()
  | some text => (← IO.getStderr).putStrLn ("error: " ++ text)
  return answer.code
